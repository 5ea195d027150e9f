import TrenchDb.Storage.Requests

/-!
# The commands of the client

`trench-cli/src/parser.rs`, `registry.rs` and `commands`: what a command makes of its arguments, up to the request that
it sends. The other end of the connection is `Request.parse`.
-/

open TrenchDb.Rpc TrenchDb.Storage TrenchDb.Transport

namespace TrenchDb.Cli

/-! ## Arguments -/

section Arguments

variable (args : List String) (usage : String)

def parseOneArg : Except String String :=
  match args with
  | [arg] => .ok arg
  | _ => .error ("Usage: " ++ usage)

def parseTwoArgs : Except String (String × String) :=
  match args with
  | [first, second] => .ok (first, second)
  | _ => .error ("Usage: " ++ usage)

def parseThreeOrMoreArgs : Except String (String × String × List UInt8) :=
  match args with
  | table :: key :: value :: values => .ok (table, key, asBytes (" ".intercalate (value :: values)))
  | _ => .error ("Usage: " ++ usage)

end Arguments

/-! ## Commands -/

/-- A command, up to the request that `execute` builds or its error. -/
structure CommandHandler where
  name : String
  usage : String
  request : List String → Except String Request

def tableCommand (name usage : String) (build : String → Request) : CommandHandler where
  name
  usage
  request args := do
    let table ← parseOneArg args usage
    return build table

def keyCommand (name usage : String) (build : String → String → Request) : CommandHandler where
  name
  usage
  request args := do
    let (table, key) ← parseTwoArgs args usage
    return build table key

def valueCommand (name usage : String) (build : String → String → List UInt8 → Request) : CommandHandler where
  name
  usage
  request args := do
    let (table, key, value) ← parseThreeOrMoreArgs args usage
    return build table key value

def GetCommand : CommandHandler := keyCommand "get" "get <table> <key>" fun table key => .get { table, key }

def PutCommand : CommandHandler :=
  valueCommand "put" "put <table> <key> <value>" fun table key value => .put { table, key, value }

def UpdateCommand : CommandHandler :=
  valueCommand "update" "update <table> <key> <value>" fun table key value => .update { table, key, value }

def DeleteCommand : CommandHandler :=
  keyCommand "delete" "delete <table> <key>" fun table key => .delete { table, key }

def ContainsCommand : CommandHandler :=
  keyCommand "contains" "contains <table> <key>" fun table key => .contains { table, key }

def AddTableCommand : CommandHandler := tableCommand "add_table" "add_table <table>" fun table => .addTable { table }

def RemoveTableCommand : CommandHandler :=
  tableCommand "remove_table" "remove_table <table>" fun table => .removeTable { table }

/-! ## The registry -/

def handlers : List CommandHandler :=
  [GetCommand, PutCommand, UpdateCommand, DeleteCommand, ContainsCommand, AddTableCommand, RemoveTableCommand]

def CommandRegistry.get (name : String) : Option CommandHandler := handlers.find? fun handler => handler.name == name

theorem CommandRegistry.get_name {handler : CommandHandler} (h : handler ∈ handlers) :
    get handler.name = some handler := by
  simp only [handlers, List.mem_cons, List.not_mem_nil, or_false] at h
  rcases h with rfl | rfl | rfl | rfl | rfl | rfl | rfl <;> rfl

/-- What becomes of a command: the request that it sends and the action that it is sent under, or its error. -/
inductive Executed
  | sent (action : String) (request : Request)
  | failed (error : String)
  | unknown (name : String)

def CommandHandler.execute (handler : CommandHandler) (args : List String) : Executed :=
  match handler.request args with
  | .ok request => .sent handler.name request
  | .error error => .failed error

/-- The look-up in the registry that `main` and the REPL both make. -/
def dispatch (name : String) (args : List String) : Executed :=
  match CommandRegistry.get name with
  | some handler => handler.execute args
  | none => .unknown name

/-! ## One command as the arguments of the program -/

/-- What `clap` has read. -/
inductive CliCommand
  | get (table key : String)
  | put (table key value : String)
  | update (table key value : String)
  | delete (table key : String)
  | contains (table key : String)
  | addTable (table : String)
  | removeTable (table : String)

def cliCommandToArgs : CliCommand → List String
  | .get table key => ["get", table, key]
  | .put table key value => ["put", table, key, value]
  | .update table key value => ["update", table, key, value]
  | .delete table key => ["delete", table, key]
  | .contains table key => ["contains", table, key]
  | .addTable table => ["add_table", table]
  | .removeTable table => ["remove_table", table]

theorem cliCommandToArgs_ne_nil (cmd : CliCommand) : cliCommandToArgs cmd ≠ [] := by
  cases cmd <;> exact List.cons_ne_nil _ _

/-- The branch of `main` for a command. -/
def runCommand (cmd : CliCommand) : Executed :=
  dispatch ((cliCommandToArgs cmd).head (cliCommandToArgs_ne_nil cmd)) (cliCommandToArgs cmd).tail

/-- The request with the arguments of the command. -/
def CliCommand.request : CliCommand → Request
  | .get table key => .get { table, key }
  | .put table key value => .put { table, key, value := asBytes value }
  | .update table key value => .update { table, key, value := asBytes value }
  | .delete table key => .delete { table, key }
  | .contains table key => .contains { table, key }
  | .addTable table => .addTable { table }
  | .removeTable table => .removeTable { table }

/-- No command of the program fails before its request is sent, and all arguments are sent as they are. -/
theorem runCommand_sent (cmd : CliCommand) :
    runCommand cmd = .sent ((cliCommandToArgs cmd).head (cliCommandToArgs_ne_nil cmd)) cmd.request := by
  cases cmd with
  | put table key value | update table key value =>
    have hone : " ".intercalate [value] = value := String.intercalate_singleton
    simp only [runCommand, cliCommandToArgs, List.head_cons, List.tail_cons, CliCommand.request]
    conv_rhs => rw [← hone]
    rfl
  | _ => rfl

/-! ## What the server makes of it -/

section Server

variable {c : Codecs} {name usage action : String} {args : List String} {r : Request}

/-- `encode(&req)`. -/
def encoded (c : Codecs) : Request → List UInt8
  | .get r => encode c.getRequest r
  | .put r => encode c.putRequest r
  | .update r => encode c.updateRequest r
  | .delete r => encode c.deleteRequest r
  | .contains r => encode c.containsRequest r
  | .addTable r => encode c.addTableRequest r
  | .removeTable r => encode c.removeTableRequest r

/-- What is assumed of the codecs of the requests. -/
structure RequestsRoundTrip (c : Codecs) : Prop where
  get : c.getRequest.RoundTrips
  put : c.putRequest.RoundTrips
  update : c.updateRequest.RoundTrips
  delete : c.deleteRequest.RoundTrips
  contains : c.containsRequest.RoundTrips
  addTable : c.addTableRequest.RoundTrips
  removeTable : c.removeTableRequest.RoundTrips

theorem tableCommand_sent {build : String → Request}
    (h : (tableCommand name usage build).execute args = .sent action r) :
    action = name ∧ ∃ table, r = build table := by
  unfold CommandHandler.execute tableCommand at h
  cases hargs : parseOneArg args usage with
  | error err => simp [hargs, bind, Except.bind] at h
  | ok table =>
    simp only [hargs, bind, Except.bind, pure, Except.pure, Executed.sent.injEq] at h
    exact ⟨h.1.symm, table, h.2.symm⟩

theorem keyCommand_sent {build : String → String → Request}
    (h : (keyCommand name usage build).execute args = .sent action r) :
    action = name ∧ ∃ table key, r = build table key := by
  unfold CommandHandler.execute keyCommand at h
  cases hargs : parseTwoArgs args usage with
  | error err => simp [hargs, bind, Except.bind] at h
  | ok parsed =>
    simp only [hargs, bind, Except.bind, pure, Except.pure, Executed.sent.injEq] at h
    exact ⟨h.1.symm, parsed.1, parsed.2, h.2.symm⟩

theorem valueCommand_sent {build : String → String → List UInt8 → Request}
    (h : (valueCommand name usage build).execute args = .sent action r) :
    action = name ∧ ∃ table key value, r = build table key value := by
  unfold CommandHandler.execute valueCommand at h
  cases hargs : parseThreeOrMoreArgs args usage with
  | error err => simp [hargs, bind, Except.bind] at h
  | ok parsed =>
    simp only [hargs, bind, Except.bind, pure, Except.pure, Executed.sent.injEq] at h
    exact ⟨h.1.symm, parsed.1, parsed.2.1, parsed.2.2, h.2.symm⟩

theorem dispatch_decoded (hcodecs : RequestsRoundTrip c) (h : dispatch name args = .sent action r)
    (hlt : (encoded c r).length < 2 ^ 64) : Request.decoded c { action, payload := encoded c r } = .ok r := by
  unfold dispatch at h
  cases hget : CommandRegistry.get name with
  | none => simp [hget] at h
  | some handler =>
    rw [hget] at h
    have hmem : handler ∈ handlers := List.mem_of_find?_eq_some hget
    simp only [handlers, List.mem_cons, List.not_mem_nil, or_false] at hmem
    rcases hmem with rfl | rfl | rfl | rfl | rfl | rfl | rfl
    · obtain ⟨rfl, table, key, rfl⟩ := keyCommand_sent h
      exact congrArg (Except.map _) (decode_encode hcodecs.get hlt)
    · obtain ⟨rfl, table, key, value, rfl⟩ := valueCommand_sent h
      exact congrArg (Except.map _) (decode_encode hcodecs.put hlt)
    · obtain ⟨rfl, table, key, value, rfl⟩ := valueCommand_sent h
      exact congrArg (Except.map _) (decode_encode hcodecs.update hlt)
    · obtain ⟨rfl, table, key, rfl⟩ := keyCommand_sent h
      exact congrArg (Except.map _) (decode_encode hcodecs.delete hlt)
    · obtain ⟨rfl, table, key, rfl⟩ := keyCommand_sent h
      exact congrArg (Except.map _) (decode_encode hcodecs.contains hlt)
    · obtain ⟨rfl, table, rfl⟩ := tableCommand_sent h
      exact congrArg (Except.map _) (decode_encode hcodecs.addTable hlt)
    · obtain ⟨rfl, table, rfl⟩ := tableCommand_sent h
      exact congrArg (Except.map _) (decode_encode hcodecs.removeTable hlt)

end Server

end TrenchDb.Cli
