import TrenchDb.Cli.Commands
import TrenchDb.Identity.Vault
import TrenchDb.Lib.Words

/-!
# The loop that reads commands

`trench-cli/src/repl.rs`: a line is cut into words at its white space, and a command puts the words of a value together
again with one blank between each two.
-/

open TrenchDb.Lib TrenchDb.Storage TrenchDb.Transport
open TrenchDb.Identity (isWhitespace)

namespace TrenchDb.Cli

/-! ## Lines -/

def trimmed (line : String) : String := .ofList (Identity.trim line.toList)

def splitWhitespace (s : String) : List String := (words isWhitespace s.toList).map .ofList

/-- `str::to_lowercase`, of which only the letters of ASCII matter to the names of the commands. -/
structure Lowercase where
  toLowercase : String → String
  ascii : ∀ s : String, (∀ c ∈ s.toList, c.toNat < 128) → toLowercase s = .ofList (s.toList.map Char.toLower)

theorem Lowercase.of_lower {s : String} (u : Lowercase) (hascii : s.toList.all (fun c => c.toNat < 128) = true)
    (hlower : s.toList.map Char.toLower = s.toList) : u.toLowercase s = s := by
  rw [u.ascii s fun c hc => of_decide_eq_true (List.all_eq_true.mp hascii c hc), hlower, String.ofList_toList]

def newline : UInt8 := 10

/-- `read_line`: the bytes up to the first end of a line, and what is left of the input. -/
def readLine : List UInt8 → List UInt8 × List UInt8
  | [] => ([], [])
  | b :: input => if b = newline then ([b], input) else (b :: (readLine input).1, (readLine input).2)

theorem readLine_append (input : List UInt8) : (readLine input).1 ++ (readLine input).2 = input := by
  induction input with
  | nil => rfl
  | cons b input ih =>
    rw [readLine]
    split
    · rfl
    · rw [List.cons_append, ih]

theorem readLine_rest_lt {input : List UInt8} (h : input ≠ []) : (readLine input).2.length < input.length := by
  obtain ⟨b, rest, rfl⟩ := List.exists_cons_of_ne_nil h
  have hlength := congrArg List.length (readLine_append (b :: rest))
  have hpos : 0 < (readLine (b :: rest)).1.length := by
    rw [readLine]
    split <;> simp
  rw [List.length_append] at hlength
  omega

theorem readLine_line {line : List UInt8} (h : newline ∉ line) (rest : List UInt8) :
    readLine (line ++ newline :: rest) = (line ++ [newline], rest) := by
  induction line with
  | nil => rw [List.nil_append, readLine, if_pos rfl, List.nil_append]
  | cons b line ih =>
    obtain ⟨hb, hline⟩ := not_or.mp (List.mem_cons.not.mp h)
    rw [List.cons_append, readLine, if_neg fun heq => hb heq.symm, ih hline, List.cons_append]

/-! ## The loop -/

/-- What one round of the loop does with a line. -/
inductive Round
  | unreadable
  | blank
  | quit
  | help
  | executed (command : Executed)
  -- `parts[0]` without parts.
  | panicked

def round (u : Lowercase) (line : String) : Round :=
  if (trimmed line).isEmpty then
    .blank
  else
    match splitWhitespace (trimmed line) with
    | [] => .panicked
    | first :: args =>
      let name := u.toLowercase first
      if name = "quit" ∨ name = "exit" then .quit
      else if name = "help" then .help
      else .executed (dispatch name args)

/-- The rounds over the bytes of the standard input, up to its end or `quit`. -/
def runRepl (u : Lowercase) : List UInt8 → List Round
  | [] => []
  | b :: input =>
    match fromUtf8 (readLine (b :: input)).1 with
    | none => .unreadable :: runRepl u (readLine (b :: input)).2
    | some line =>
      match round u line with
      | .quit => [.quit]
      | done => done :: runRepl u (readLine (b :: input)).2
termination_by input => input.length
decreasing_by all_goals exact readLine_rest_lt (List.cons_ne_nil b input)

variable {u : Lowercase} {line : String}

theorem toList_trimmed (line : String) : (trimmed line).toList = trim isWhitespace line.toList := String.toList_ofList

theorem splitWhitespace_trimmed (line : String) :
    splitWhitespace (trimmed line) = (words isWhitespace line.toList).map .ofList := by
  rw [splitWhitespace, toList_trimmed, words_trim]

theorem round_ne_panicked (u : Lowercase) (line : String) : round u line ≠ .panicked := by
  unfold round
  split_ifs with hblank
  · simp
  · have hne : trim isWhitespace line.toList ≠ [] := by
      rw [← toList_trimmed]
      simpa using hblank
    cases hwords : splitWhitespace (trimmed line) with
    | nil =>
      rw [splitWhitespace, toList_trimmed] at hwords
      exact absurd (List.map_eq_nil_iff.mp hwords) (words_ne_nil hne)
    | cons first args =>
      dsimp only
      split_ifs <;> simp

theorem round_command {name : List Char} {args : List (List Char)}
    (hwords : words isWhitespace line.toList = name :: args)
    (hquit : u.toLowercase (.ofList name) ≠ "quit") (hexit : u.toLowercase (.ofList name) ≠ "exit")
    (hhelp : u.toLowercase (.ofList name) ≠ "help") :
    round u line = .executed (dispatch (u.toLowercase (.ofList name)) (args.map .ofList)) := by
  have hne : trim isWhitespace line.toList ≠ [] := by
    intro hnil
    rw [← words_trim, hnil] at hwords
    cases hwords
  have hblank : (trimmed line).isEmpty = false := by
    rw [← toList_trimmed] at hne
    simpa using hne
  unfold round
  rw [hblank, splitWhitespace_trimmed, hwords]
  simp [hquit, hexit, hhelp]

theorem runRepl_line (hline : '\n' ∉ line.toList) (rest : List UInt8) (hquit : round u (line ++ "\n") ≠ .quit) :
    runRepl u (asBytes (line ++ "\n") ++ rest) = round u (line ++ "\n") :: runRepl u rest := by
  have hbytes : asBytes (line ++ "\n") = asBytes line ++ [newline] := asBytes_append _ _
  have hread : readLine (asBytes (line ++ "\n") ++ rest) = (asBytes (line ++ "\n"), rest) := by
    rw [hbytes, List.append_assoc]
    refine readLine_line (fun hmem => hline ?_) rest
    rw [asBytes_toList, List.mem_flatMap] at hmem
    obtain ⟨c, hc, hb⟩ := hmem
    have hc' : c = '\n' := Char.toNat_inj.mp (toNat_of_ascii_mem hb (by decide))
    rwa [← hc']
  obtain ⟨b, input, hinput⟩ := List.exists_cons_of_ne_nil (l := asBytes (line ++ "\n") ++ rest) (by simp [hbytes])
  rw [hinput] at hread ⊢
  rw [runRepl]
  simp only [hread, fromUtf8_eq_some.mpr rfl]

/-- A text that the loop takes for one word. -/
def IsWord (s : String) : Prop := s ≠ "" ∧ ∀ c ∈ s.toList, isWhitespace c = false

theorem isWord_of_all {s : String} (hne : s ≠ "") (hall : s.toList.all (fun c => !isWhitespace c) = true) : IsWord s :=
  ⟨hne, fun c hc => by simpa using List.all_eq_true.mp hall c hc⟩

def valueLine (name table key value : String) : String := name ++ " " ++ table ++ " " ++ key ++ " " ++ value

variable {name table key value : String}

theorem words_valueLine (hname : IsWord name) (htable : IsWord table) (hkey : IsWord key) (value : String) :
    words isWhitespace (valueLine name table key value ++ "\n").toList =
      name.toList :: table.toList :: key.toList :: words isWhitespace value.toList := by
  have hword : ∀ {s : String}, IsWord s → words isWhitespace s.toList = [s.toList] := fun hs =>
    words_word (by simpa using hs.1) hs.2
  have hblank : isWhitespace ' ' = true := by decide
  have htext : (valueLine name table key value ++ "\n").toList =
      name.toList ++ ' ' :: (table.toList ++ ' ' :: (key.toList ++ ' ' :: (value.toList ++ '\n' :: []))) := by
    simp [valueLine]
  rw [htext, words_append_cons hblank, words_append_cons hblank, words_append_cons hblank,
    words_append_cons (by decide), hword hname, hword htable, hword hkey, words_nil, List.append_nil]
  rfl

theorem newline_not_mem_valueLine (hname : IsWord name) (htable : IsWord table) (hkey : IsWord key)
    (hvalue : '\n' ∉ value.toList) : '\n' ∉ (valueLine name table key value).toList := by
  have hword : ∀ {s : String}, IsWord s → '\n' ∉ s.toList := fun hs hmem => absurd (hs.2 _ hmem) (by decide)
  simp [valueLine, hword hname, hword htable, hword hkey, hvalue]

theorem toList_join_splitWhitespace (value : String) :
    (" ".intercalate (splitWhitespace value)).toList = [' '].intercalate (words isWhitespace value.toList) := by
  rw [String.toList_intercalate, splitWhitespace, List.map_map]
  congr 1
  exact List.map_id'' (fun _ => String.toList_ofList) _

theorem execute_words_iff {usage : String} {build : String → String → List UInt8 → Request}
    (hbuild : ∀ bytes bytes', build table key bytes = build table key bytes' → bytes = bytes') :
    (valueCommand name usage build).execute (table :: key :: splitWhitespace value) =
        (valueCommand name usage build).execute [table, key, value] ↔
      value ≠ "" ∧ SingleSpaced isWhitespace ' ' value.toList := by
  rw [← join_words_iff (by decide), ← toList_join_splitWhitespace, String.toList_inj]
  have hone : " ".intercalate [value] = value := String.intercalate_singleton
  cases hwords : splitWhitespace value with
  | nil =>
    refine iff_of_false (fun h => ?_) fun h => h.1 h.2.symm
    cases h
  | cons first others =>
    have hne : value ≠ "" := by
      rintro rfl
      cases hwords
    rw [and_iff_right hne]
    constructor
    · intro h
      have hsame := asBytes_injective (hbuild _ _ (Executed.sent.inj h).2)
      rwa [hone] at hsame
    · intro h
      have hsame := congrArg (fun value => Executed.sent name (build table key (asBytes value))) (h.trans hone.symm)
      exact hsame

theorem runRepl_valueLine (hlower : u.toLowercase name = name) (hname : IsWord name)
    (hreserved : name ∉ ["quit", "exit", "help"]) (htable : IsWord table) (hkey : IsWord key)
    (hvalue : '\n' ∉ value.toList) (rest : List UInt8) :
    (runRepl u (asBytes (valueLine name table key value ++ "\n") ++ rest)).head? =
      some (.executed (dispatch name (table :: key :: splitWhitespace value))) := by
  obtain ⟨hquit, hexit, hhelp⟩ : name ≠ "quit" ∧ name ≠ "exit" ∧ name ≠ "help" := by simpa using hreserved
  have hround : round u (valueLine name table key value ++ "\n") =
      .executed (dispatch name (table :: key :: splitWhitespace value)) := by
    have hcommand := @round_command u _ _ _ (words_valueLine hname htable hkey value)
    simp only [String.ofList_toList, hlower] at hcommand
    rw [hcommand hquit hexit hhelp]
    simp [splitWhitespace]
  rw [runRepl_line (newline_not_mem_valueLine hname htable hkey hvalue) rest (by simp [hround]), hround]
  rfl

theorem put_words_iff : dispatch "put" (table :: key :: splitWhitespace value) = runCommand (.put table key value) ↔
    value ≠ "" ∧ SingleSpaced isWhitespace ' ' value.toList :=
  execute_words_iff fun _ _ h => congrArg PutRequest.value (Request.put.inj h)

theorem update_words_iff :
    dispatch "update" (table :: key :: splitWhitespace value) = runCommand (.update table key value) ↔
      value ≠ "" ∧ SingleSpaced isWhitespace ' ' value.toList :=
  execute_words_iff fun _ _ h => congrArg UpdateRequest.value (Request.update.inj h)

theorem isWord_put : IsWord "put" := isWord_of_all (by decide) (by decide)

theorem isWord_update : IsWord "update" := isWord_of_all (by decide) (by decide)

/-- A line of the loop and the same command of the program send the same request if and only if the value is not empty
and its words are all of it. -/
theorem repl_agrees_iff (u : Lowercase) (table key value : String) (rest : List UInt8) (htable : IsWord table)
    (hkey : IsWord key) (hvalue : '\n' ∉ value.toList) :
    ((runRepl u (asBytes (valueLine "put" table key value ++ "\n") ++ rest)).head? =
        some (.executed (runCommand (.put table key value))) ↔
      value ≠ "" ∧ SingleSpaced isWhitespace ' ' value.toList) ∧
    ((runRepl u (asBytes (valueLine "update" table key value ++ "\n") ++ rest)).head? =
        some (.executed (runCommand (.update table key value))) ↔
      value ≠ "" ∧ SingleSpaced isWhitespace ' ' value.toList) := by
  constructor
  · rw [runRepl_valueLine (u.of_lower (by decide) (by decide)) isWord_put (by decide) htable hkey hvalue,
      Option.some_inj, Round.executed.injEq]
    exact put_words_iff
  · rw [runRepl_valueLine (u.of_lower (by decide) (by decide)) isWord_update (by decide) htable hkey hvalue,
      Option.some_inj, Round.executed.injEq]
    exact update_words_iff

def asciiLowercase : Lowercase where
  toLowercase s := .ofList (s.toList.map Char.toLower)
  ascii _ _ := rfl

theorem repl_agrees_iff_word :
    (runRepl asciiLowercase (asBytes (valueLine "put" "t" "k" "a b" ++ "\n") ++ [])).head? =
      some (.executed (runCommand (.put "t" "k" "a b"))) :=
  (repl_agrees_iff asciiLowercase "t" "k" "a b" [] (isWord_of_all (by decide) (by decide))
    (isWord_of_all (by decide) (by decide)) (by decide)).1.mpr
      ⟨by decide, by decide⟩

/-- Two blanks in a value: one is lost. -/
theorem blanks_not_kept :
    (runRepl asciiLowercase (asBytes (valueLine "put" "t" "k" "a  b" ++ "\n"))).head? ≠
      some (.executed (runCommand (.put "t" "k" "a  b"))) := by
  have hline := @runRepl_valueLine asciiLowercase "put" "t" "k" "a  b" (by decide) isWord_put (by decide)
    (isWord_of_all (by decide) (by decide)) (isWord_of_all (by decide) (by decide)) (by decide) []
  rw [List.append_nil] at hline
  rw [hline, Ne, Option.some_inj, Round.executed.injEq]
  intro hsame
  exact absurd (put_words_iff.mp hsame).2 (by decide)

end TrenchDb.Cli
