import Mathlib.Data.List.ReduceOption
import TrenchDb.Identity.Vault

/-!
# The settings of a node

`engine/src/config.rs`. `run_server` and `NodeIdentity::new` read the same file, each with a parser of its own.
-/

open TrenchDb.Lib

namespace TrenchDb.Identity

structure NodeConfig where
  nodeAddress : String
  status : String
  region : String
  id : String
  anchorAddress : String
  walPath : String
  deriving DecidableEq, Repr

/-- One line of the file. -/
def NodeConfig.readLine (config : NodeConfig) (line : List Char) : Except String NodeConfig :=
  let line := trim line
  if line = [] ∨ line.head? = some '#' then .ok config
  else match splitOnce '=' line with
    | none => .error ("Invalid config line: " ++ String.ofList line)
    | some (key, value) =>
      let value := String.ofList
        (trimMatches (· = Char.ofNat 0x27) (trimMatches (· = Char.ofNat 0x22) (trim value)))
      match String.ofList (trim key) with
      | "NodeAddress" => .ok { config with nodeAddress := value }
      | "Status" => .ok { config with status := value }
      | "Region" => .ok { config with region := value }
      | "ID" => .ok { config with id := value }
      | "AnchorAddress" => .ok { config with anchorAddress := value }
      | "WalPath" => .ok { config with walPath := value }
      | _ => .ok config

/-- `content` is what reading the file gives. An empty file is none of its own errors. -/
def NodeConfig.fromFile (content : Except String String) : Except String NodeConfig := do
  let content ← content
  let config ← (content.toList.splitOn '\n').foldlM NodeConfig.readLine
    { nodeAddress := "", status := "", region := "", id := "", anchorAddress := "", walPath := "" }
  if config.id = "" then .error "ID is required in config.trench"
  else .ok { config with
    walPath := if config.walPath = "" then "data/" ++ config.id ++ "/wal.log" else config.walPath }

/-! ## What a file says -/

abbrev Setting : Type := String × String

/-- What a line says to either parser, if it is not a comment. -/
def lineOf (line : List Char) : Except String (Option Setting) :=
  let line := trim line
  if line = [] ∨ line.head? = some '#' then .ok none
  else match splitOnce '=' line with
    | none => .error ("Invalid config line: " ++ String.ofList line)
    | some (key, value) => .ok (some (String.ofList (trim key), String.ofList
        (trimMatches (· = Char.ofNat 0x27) (trimMatches (· = Char.ofNat 0x22) (trim value)))))

/-- The assignments of a file, or its first line that is none. -/
def settings (content : String) : Except String (List Setting) :=
  ((content.toList.splitOn '\n').mapM lineOf).map List.reduceOption

/-- The last value of a key. -/
def assigned (ss : List Setting) (key default : String) : String :=
  ((ss.filter (·.1 = key)).getLast?.map Prod.snd).getD default

def TrenchConfig.assign (config : TrenchConfig) (s : Setting) : TrenchConfig :=
  match s.1 with
  | "NodeAddress" => { config with nodeAddress := s.2 }
  | "Region" => { config with region := s.2 }
  | "IdentityVaultPath" => { config with identityVaultPath := s.2 }
  | _ => config

def NodeConfig.assign (config : NodeConfig) (s : Setting) : NodeConfig :=
  match s.1 with
  | "NodeAddress" => { config with nodeAddress := s.2 }
  | "Status" => { config with status := s.2 }
  | "Region" => { config with region := s.2 }
  | "ID" => { config with id := s.2 }
  | "AnchorAddress" => { config with anchorAddress := s.2 }
  | "WalPath" => { config with walPath := s.2 }
  | _ => config

section Assigned

variable {ss : List Setting} {s : Setting} {key default : String}

@[simp] theorem assigned_nil : assigned [] key default = default := rfl

@[simp] theorem assigned_cons :
    assigned (s :: ss) key default = assigned ss key (if s.1 = key then s.2 else default) := by
  unfold assigned
  by_cases hkey : s.1 = key
  · rw [List.filter_cons_of_pos (by simpa using hkey), List.getLast?_cons, if_pos hkey]
    cases (ss.filter (·.1 = key)).getLast? <;> rfl
  · rw [List.filter_cons_of_neg (by simpa using hkey), if_neg hkey]

theorem TrenchConfig.foldl_assign (ss : List Setting) (config : TrenchConfig) : ss.foldl TrenchConfig.assign config =
    { nodeAddress := assigned ss "NodeAddress" config.nodeAddress
      region := assigned ss "Region" config.region
      identityVaultPath := assigned ss "IdentityVaultPath" config.identityVaultPath } := by
  induction ss generalizing config with
  | nil => rfl
  | cons s ss ih =>
    rw [List.foldl_cons, ih]
    unfold assign
    split <;> simp_all

theorem NodeConfig.foldl_assign (ss : List Setting) (config : NodeConfig) : ss.foldl NodeConfig.assign config =
    { nodeAddress := assigned ss "NodeAddress" config.nodeAddress
      status := assigned ss "Status" config.status
      region := assigned ss "Region" config.region
      id := assigned ss "ID" config.id
      anchorAddress := assigned ss "AnchorAddress" config.anchorAddress
      walPath := assigned ss "WalPath" config.walPath } := by
  induction ss generalizing config with
  | nil => rfl
  | cons s ss ih =>
    rw [List.foldl_cons, ih]
    unfold assign
    split <;> simp_all

end Assigned

theorem TrenchConfig.readLine_eq (config : TrenchConfig) (line : List Char) :
    config.readLine line = (lineOf line).map fun o => o.elim config config.assign := by
  unfold readLine lineOf
  dsimp only
  split_ifs with hskip
  · rfl
  · cases splitOnce '=' (trim line) with
    | none => rfl
    | some sides =>
      simp only [Except.map, Option.elim, assign]
      generalize String.ofList (trim sides.1) = key
      split <;> simp_all

theorem NodeConfig.readLine_eq (config : NodeConfig) (line : List Char) :
    config.readLine line = (lineOf line).map fun o => o.elim config config.assign := by
  unfold readLine lineOf
  dsimp only
  split_ifs with hskip
  · rfl
  · cases splitOnce '=' (trim line) with
    | none => rfl
    | some sides =>
      simp only [Except.map, Option.elim, assign]
      generalize String.ofList (trim sides.1) = key
      split <;> simp_all

theorem foldlM_readLine {γ : Type} {readLine : γ → List Char → Except String γ} {assign : γ → Setting → γ}
    (h : ∀ config line, readLine config line = (lineOf line).map fun o => o.elim config (assign config))
    (lines : List (List Char)) (config : γ) :
    lines.foldlM readLine config = (lines.mapM lineOf).map fun os => os.reduceOption.foldl assign config := by
  induction lines generalizing config with
  | nil => rfl
  | cons line lines ih =>
    rw [List.foldlM_cons, List.mapM_cons, h]
    cases lineOf line with
    | error e => rfl
    | ok o =>
      show lines.foldlM readLine (o.elim config (assign config)) = _
      rw [ih]
      cases lines.mapM lineOf with
      | error e => cases o <;> rfl
      | ok os => cases o <;> rfl

/-- What `load_config` takes from these assignments. -/
def TrenchConfig.ofSettings (ss : List Setting) : Except String TrenchConfig :=
  if assigned ss "NodeAddress" "" = "" then .error "NodeAddress is required in config.trench"
  else .ok
    { nodeAddress := assigned ss "NodeAddress" ""
      region := assigned ss "Region" ""
      identityVaultPath := assigned ss "IdentityVaultPath" "identity" }

/-- What `NodeConfig::from_file` takes from them. -/
def NodeConfig.ofSettings (ss : List Setting) : Except String NodeConfig :=
  if assigned ss "ID" "" = "" then .error "ID is required in config.trench"
  else .ok
    { nodeAddress := assigned ss "NodeAddress" ""
      status := assigned ss "Status" ""
      region := assigned ss "Region" ""
      id := assigned ss "ID" ""
      anchorAddress := assigned ss "AnchorAddress" ""
      walPath := if assigned ss "WalPath" "" = "" then "data/" ++ assigned ss "ID" "" ++ "/wal.log"
        else assigned ss "WalPath" "" }

section Read

variable (content : String)

theorem loadConfig_settings (hblank : trim content.toList ≠ []) :
    loadConfig (.ok content) = (settings content).bind TrenchConfig.ofSettings := by
  show (if trim content.toList = [] then _ else _) = _
  rw [if_neg hblank, foldlM_readLine TrenchConfig.readLine_eq, settings]
  cases (content.toList.splitOn '\n').mapM lineOf with
  | error e => rfl
  | ok os =>
    simp only [Except.map, TrenchConfig.foldl_assign]
    rfl

theorem fromFile_settings :
    NodeConfig.fromFile (.ok content) = (settings content).bind NodeConfig.ofSettings := by
  show ((content.toList.splitOn '\n').foldlM NodeConfig.readLine _).bind _ = _
  rw [foldlM_readLine NodeConfig.readLine_eq, settings]
  cases (content.toList.splitOn '\n').mapM lineOf with
  | error e => rfl
  | ok os =>
    simp only [Except.map, NodeConfig.foldl_assign]
    rfl

end Read

/-! ## Files as they are written -/

/-- Whitespace within a line. -/
def IsPad (pad : List Char) : Prop := ∀ c ∈ pad, isWhitespace c = true ∧ c ≠ '\n'

/-- Such a character is at neither end. -/
def Bare (p : Char → Bool) (text : List Char) : Prop :=
  (∀ c ∈ text.head?, p c = false) ∧ ∀ c ∈ text.getLast?, p c = false

def doubleQuote : Char := Char.ofNat 0x22
def singleQuote : Char := Char.ofNat 0x27

/-- A key with its value in double quotes, and whitespace around both. -/
structure Assignment where
  indent : List Char
  key : List Char
  before : List Char
  after : List Char
  value : List Char
  trailing : List Char
  indent_pad : IsPad indent
  before_pad : IsPad before
  after_pad : IsPad after
  trailing_pad : IsPad trailing
  key_ne : key ≠ []
  key_bare : Bare isWhitespace key
  key_line : ∀ c ∈ key, c ≠ '\n' ∧ c ≠ '='
  key_plain : key.head? ≠ some '#'
  value_line : '\n' ∉ value
  value_bare : Bare (· = doubleQuote) value
  value_bare' : Bare (· = singleQuote) value

/-- Blank, a comment, an assignment, or some text that is none of these. -/
inductive Line where
  | blank (pad : List Char) (h : IsPad pad)
  | comment (indent text : List Char) (hindent : IsPad indent) (htext : '\n' ∉ text)
  | assignment (a : Assignment)
  | junk (text : List Char) (hne : text ≠ []) (hbare : Bare isWhitespace text) (hplain : text.head? ≠ some '#')
      (hline : ∀ c ∈ text, c ≠ '\n' ∧ c ≠ '=')

def Assignment.quoted (a : Assignment) : List Char := [doubleQuote] ++ (a.value ++ [doubleQuote])

def Assignment.core (a : Assignment) : List Char := a.key ++ (a.before ++ '=' :: (a.after ++ a.quoted))

def Line.text : Line → List Char
  | .blank pad _ => pad
  | .comment indent text _ _ => indent ++ '#' :: text
  | .assignment a => a.indent ++ (a.core ++ a.trailing)
  | .junk text _ _ _ _ => text

def Line.meaning : Line → Except String (Option Setting)
  | .blank _ _ | .comment _ _ _ _ => .ok none
  | .assignment a => .ok (some (String.ofList a.key, String.ofList a.value))
  | .junk text _ _ _ _ => .error ("Invalid config line: " ++ String.ofList text)

/-- The assignments of a document, or the error of its first line that is junk. -/
def meaning (doc : List Line) : Except String (List Setting) := (doc.mapM Line.meaning).map List.reduceOption

/-- One line under the other. -/
def render (doc : List Line) : String := String.ofList (['\n'].intercalate (doc.map Line.text))

section Trim

variable {p : Char → Bool} {front text back : List Char}

theorem dropWhile_between (hfront : ∀ c ∈ front, p c = true) (hhead : ∀ c ∈ text.head?, p c = false) :
    (front ++ text).dropWhile p = text := by
  rw [List.dropWhile_append_of_pos hfront]
  cases text with
  | nil => rfl
  | cons c text => exact List.dropWhile_cons_of_neg (by simpa using hhead)

theorem trimMatches_between (hfront : ∀ c ∈ front, p c = true) (hback : ∀ c ∈ back, p c = true)
    (hne : text ≠ []) (hbare : Bare p text) : trimMatches p (front ++ (text ++ back)) = text := by
  have hhead : ∀ c ∈ (text ++ back).head?, p c = false := by
    rw [List.head?_append_of_ne_nil _ hne]
    exact hbare.1
  rw [trimMatches, dropWhile_between hfront hhead, List.rdropWhile, List.reverse_append,
    dropWhile_between (by simpa using hback) (by simpa using hbare.2), List.reverse_reverse]

theorem trimMatches_front (hfront : ∀ c ∈ front, p c = true) (hne : text ≠ []) (hbare : Bare p text) :
    trimMatches p (front ++ text) = text := by
  have h := trimMatches_between hfront (fun _ hc => absurd hc List.not_mem_nil) hne hbare
  rwa [List.append_nil] at h

theorem trimMatches_back (hback : ∀ c ∈ back, p c = true) (hne : text ≠ []) (hbare : Bare p text) :
    trimMatches p (text ++ back) = text :=
  trimMatches_between (fun _ hc => absurd hc List.not_mem_nil) hback hne hbare

theorem trimMatches_self (hne : text ≠ []) (hbare : Bare p text) : trimMatches p text = text :=
  trimMatches_front (fun _ hc => absurd hc List.not_mem_nil) hne hbare

theorem trimMatches_all (h : ∀ c ∈ text, p c = true) : trimMatches p text = [] := by
  rw [trimMatches, List.dropWhile_eq_nil_iff.mpr h]
  rfl

theorem trimMatches_head? {c : Char} (hfront : ∀ c ∈ front, p c = true) (hc : p c = false) :
    (trimMatches p (front ++ c :: text)).head? = some c := by
  rw [trimMatches, dropWhile_between hfront (by simpa using hc)]
  obtain ⟨rest, hrest⟩ := List.rdropWhile_prefix p (l := c :: text)
  cases hdrop : (c :: text).rdropWhile p with
  | nil =>
    have hall := List.rdropWhile_eq_nil_iff.mp hdrop c List.mem_cons_self
    exact absurd (hall.symm.trans hc) (by decide)
  | cons d kept =>
    rw [hdrop] at hrest
    exact congrArg some (List.cons.inj hrest).1

end Trim

section Lines

variable {pad : List Char}

theorem IsPad.whitespace (h : IsPad pad) : ∀ c ∈ pad, isWhitespace c = true := fun c hc => (h c hc).1

theorem IsPad.ne (h : IsPad pad) {c d : Char} (hc : c ∈ pad) (hd : isWhitespace d = false) : c ≠ d := fun heq =>
  absurd (h c hc).1 (by rw [heq, hd]; exact Bool.false_ne_true)

theorem splitOnce_append {c : Char} {key value : List Char} (h : ∀ d ∈ key, d ≠ c) :
    splitOnce c (key ++ c :: value) = some (key, value) := by
  have hkey : ∀ d ∈ key, decide (d ≠ c) = true := fun d hd => decide_eq_true (h d hd)
  rw [splitOnce, List.dropWhile_append_of_pos hkey, List.takeWhile_append_of_pos hkey]
  simp

theorem splitOnce_none {c : Char} {text : List Char} (h : ∀ d ∈ text, d ≠ c) : splitOnce c text = none := by
  have htext : ∀ d ∈ text, decide (d ≠ c) = true := fun d hd => decide_eq_true (h d hd)
  rw [splitOnce, List.dropWhile_eq_nil_iff.mpr htext]

namespace Assignment

variable (a : Assignment)

theorem core_head? : a.core.head? = a.key.head? := List.head?_append_of_ne_nil _ a.key_ne

theorem core_ne : a.core ≠ [] := by simp [core]

theorem quoted_ne : a.quoted ≠ [] := by simp [quoted]

theorem quoted_last : a.quoted.getLast? = some doubleQuote := by
  rw [quoted, ← List.append_assoc, List.getLast?_concat]

theorem quoted_bare : Bare isWhitespace a.quoted := by
  have hquote : isWhitespace doubleQuote = false := by decide
  refine ⟨fun c hc => ?_, fun c hc => ?_⟩
  · obtain rfl : doubleQuote = c := Option.some.inj hc
    exact hquote
  · obtain rfl : doubleQuote = c := Option.some.inj (a.quoted_last.symm.trans hc)
    exact hquote

theorem core_bare : Bare isWhitespace a.core := by
  refine ⟨by rw [core_head?]; exact a.key_bare.1, ?_⟩
  have hcore : a.core = a.key ++ (a.before ++ '=' :: a.after) ++ a.quoted := by simp [core]
  rw [hcore, List.getLast?_append_of_ne_nil _ a.quoted_ne]
  exact a.quoted_bare.2

theorem core_split : splitOnce '=' a.core = some (a.key ++ a.before, a.after ++ a.quoted) := by
  rw [core, ← List.append_assoc]
  refine splitOnce_append fun c hc => ?_
  rcases List.mem_append.mp hc with hc | hc
  · exact (a.key_line c hc).2
  · exact a.before_pad.ne hc (by decide)

theorem key_trimmed : trim (a.key ++ a.before) = a.key :=
  trimMatches_back a.before_pad.whitespace a.key_ne a.key_bare

theorem value_trimmed :
    trimMatches (· = singleQuote) (trimMatches (· = doubleQuote) (trim (a.after ++ a.quoted))) = a.value := by
  have htrim : trim (a.after ++ a.quoted) = a.quoted :=
    trimMatches_front a.after_pad.whitespace a.quoted_ne a.quoted_bare
  rw [htrim]
  rcases eq_or_ne a.value [] with hnil | hne
  · rw [quoted, hnil]
    decide +kernel
  · rw [quoted, trimMatches_between (by simp) (by simp) hne a.value_bare, trimMatches_self hne a.value_bare']

end Assignment

theorem lineOf_text (line : Line) : lineOf line.text = line.meaning := by
  cases line with
  | blank pad h =>
    have htrim : trim pad = [] := trimMatches_all h.whitespace
    simp [lineOf, Line.text, Line.meaning, htrim]
  | comment indent text hindent _ =>
    have htrim : (trim (indent ++ '#' :: text)).head? = some '#' :=
      trimMatches_head? hindent.whitespace (by decide)
    simp [lineOf, Line.text, Line.meaning, htrim]
  | assignment a =>
    have htrim : trim (a.indent ++ (a.core ++ a.trailing)) = a.core :=
      trimMatches_between a.indent_pad.whitespace a.trailing_pad.whitespace a.core_ne a.core_bare
    have hplain : ¬ (a.core = [] ∨ a.core.head? = some '#') := by
      rintro (hnil | hhead)
      · exact a.core_ne hnil
      · exact a.key_plain (a.core_head?.symm.trans hhead)
    simp only [lineOf, Line.text, Line.meaning, htrim, if_neg hplain, a.core_split, a.key_trimmed]
    exact congrArg (fun value => Except.ok (some (String.ofList a.key, String.ofList value))) a.value_trimmed
  | junk text hne hbare hplain hline =>
    have hsplit : splitOnce '=' text = none := splitOnce_none fun c hc => (hline c hc).2
    simp [lineOf, Line.text, Line.meaning, trim, trimMatches_self hne hbare, hne, hplain, hsplit]

theorem text_line (line : Line) : '\n' ∉ line.text := by
  have hpad : ∀ {pad : List Char}, IsPad pad → '\n' ∉ pad := fun h hmem => (h _ hmem).2 rfl
  cases line with
  | blank pad h => exact hpad h
  | comment indent text hindent htext => simp [Line.text, hpad hindent, htext]
  | assignment a =>
    have hkey : '\n' ∉ a.key := fun hmem => (a.key_line _ hmem).1 rfl
    have hquote : '\n' ≠ doubleQuote := by decide
    simp [Line.text, Assignment.core, Assignment.quoted, hpad a.indent_pad, hpad a.before_pad, hpad a.after_pad,
      hpad a.trailing_pad, hkey, hquote, a.value_line]
  | junk text _ _ _ hline => exact fun hmem => (hline _ hmem).1 rfl

theorem settings_render (doc : List Line) : settings (render doc) = meaning doc := by
  have hmap : ∀ doc : List Line, (doc.map Line.text).mapM lineOf = doc.mapM Line.meaning := fun doc => by
    induction doc with
    | nil => rfl
    | cons line doc ih => rw [List.map_cons, List.mapM_cons, List.mapM_cons, lineOf_text, ih]
  cases doc with
  | nil => rfl
  | cons line doc =>
    rw [settings, render, String.toList_ofList, List.splitOn_intercalate _ ?_ (by simp), hmap, meaning]
    intro text htext
    obtain ⟨line', -, rfl⟩ := List.mem_map.mp htext
    exact text_line line'

end Lines

/-- Both parsers read from a written document what its lines say: the last value of each of their keys, or the
error of the first line that is junk. -/
theorem config_rendered (doc : List Line) :
    NodeConfig.fromFile (.ok (render doc)) = (meaning doc).bind NodeConfig.ofSettings ∧
    loadConfig (.ok (render doc)) = if trim (render doc).toList = [] then .error "Config file config.trench is empty"
      else (meaning doc).bind TrenchConfig.ofSettings := by
  refine ⟨by rw [fromFile_settings, settings_render], ?_⟩
  split_ifs with hblank
  · exact if_pos hblank
  · rw [loadConfig_settings _ hblank, settings_render]

end TrenchDb.Identity
