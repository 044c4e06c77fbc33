import Mathlib.Data.List.Basic
import ClauseReach.Glob.Segment

/-!
The syntax of glob patterns. A grammar says which patterns are proper: rows of terms, where a term is a star, a question
mark, a character or a class. A stray byte may stand for itself, but not in a class. The reader of a segment is followed
through its stages, without the items it gathers. The stages lead to the end of exactly the proper texts. One way, each
part of the grammar is read from where it may start to where it may end. The other way, what stands behind the reader
is at every stage a row of whole terms and the start of one more.
-/

namespace ClauseReach.Glob

open Text
open Utf8 (Rune)

/-- A character of a class: itself, or any character behind a backslash. -/
inductive Member : List Rune → Prop
  | plain {c : Char} (free : c ≠ '\\' ∧ c ≠ '-' ∧ c ≠ ']') : Member [.char c]
  | escaped (c : Char) : Member ['\\', .char c]

inductive Range : List Rune → Prop
  | single {text : List Rune} : Member text → Range text
  | span {low high : List Rune} : Member low → Member high → Range (low ++ .char '-' :: high)

inductive Row (Part : List Rune → Prop) : List Rune → Prop
  | nil : Row Part []
  | snoc {text part : List Rune} : Row Part text → Part part → Row Part (text ++ part)

def bracket (negated : Bool) : List Rune := if negated then ['[', '^'] else ['[']

/-- A part of a pattern. A class must not be empty, and a caret behind its bracket negates it. -/
inductive Term : List Rune → Prop
  | star : Term ['*']
  | any : Term ['?']
  | literal {c : Rune} (free : c ≠ '*' ∧ c ≠ '?' ∧ c ≠ '\\' ∧ c ≠ '[') : Term [c]
  | escaped (c : Rune) : Term ['\\', c]
  | oneOf {negated : Bool} {text : List Rune} : Row Range text → text ≠ [] →
      (negated = false → text.head? ≠ some '^') → Term (bracket negated ++ text ++ [.char ']'])

abbrev Proper : List Rune → Prop := Row Term

theorem Member.ne_nil {text : List Rune} (member : Member text) : text ≠ [] := by
  cases member <;> simp

theorem Range.ne_nil {text : List Rune} (range : Range text) : text ≠ [] := by
  cases range with
  | single member => exact member.ne_nil
  | span low high => simp

/-! ### Stages -/

/-- Where the reader of a text is, without what it has gathered. -/
inductive Stage where
  | outside
  | escape
  | opening
  | low
  | lowEscape
  | between
  | high
  | highEscape
  | closing

def Mode.stage : Mode → Stage
  | .outside => .outside
  | .escape => .escape
  | .opening => .opening
  | .low .. => .low
  | .lowEscape .. => .lowEscape
  | .between .. => .between
  | .high .. => .high
  | .highEscape .. => .highEscape
  | .closing .. => .closing

namespace Stage

def bounded? (next : Stage) : Rune → Option Stage
  | .char _ => some next
  | .stray _ => none

def start? (c : Rune) : Option Stage :=
  if c = '-' ∨ c = ']' then none else if c = '\\' then some .lowEscape else bounded? .between c

def next? (stage : Stage) (c : Rune) : Option Stage :=
  match stage with
  | .outside => if c = '[' then some .opening else if c = '\\' then some .escape else some .outside
  | .escape => some .outside
  | .opening => if c = '^' then some .low else start? c
  | .low => start? c
  | .lowEscape => bounded? .between c
  | .between => if c = '-' then some .high else if c = ']' then some .outside else start? c
  | .high => if c = '-' ∨ c = ']' then none else if c = '\\' then some .highEscape else bounded? .closing c
  | .highEscape => bounded? .closing c
  | .closing => if c = ']' then some .outside else start? c

def read? (stage : Stage) (text : List Rune) : Option Stage := text.foldlM next? stage

@[simp] theorem read?_nil (stage : Stage) : stage.read? [] = some stage := rfl

theorem read?_cons (stage : Stage) (c : Rune) (rest : List Rune) :
    stage.read? (c :: rest) = (stage.next? c).bind (·.read? rest) := rfl

theorem read?_append (stage : Stage) (text rest : List Rune) :
    stage.read? (text ++ rest) = (stage.read? text).bind (·.read? rest) :=
  List.foldlM_append

def Finishes (stage : Stage) (text : List Rune) : Prop := stage.read? text = some .outside

theorem finishes_nil {stage : Stage} : stage.Finishes [] ↔ stage = .outside :=
  Option.some_inj

theorem finishes_cons {stage : Stage} {c : Rune} {rest : List Rune} :
    stage.Finishes (c :: rest) ↔ ∃ next, stage.next? c = some next ∧ next.Finishes rest :=
  Option.bind_eq_some_iff

end Stage

/-- A character takes the reader from mode to mode, or it breaks the rules. -/
def Steps (mode : Mode) (c : Rune) (rest : List Rune) : Prop :=
  (mode.stage.next? c = none ∧ readItems mode (c :: rest) = .error .malformed) ∨
    ∃ next : Mode, mode.stage.next? c = some next.stage ∧
      (readItems mode (c :: rest) = .error .malformed ↔ readItems next rest = .error .malformed)

theorem prepend_malformed {first : Item} {read : Except Malformed (List Item)} :
    (read >>= fun items => pure (first :: items)) = .error .malformed ↔ read = .error .malformed := by
  cases read with
  | error failure => simp [bind, Except.bind]
  | ok items => simp [bind, Except.bind, pure, Except.pure]

theorem steps_of_startRange {mode : Mode} {c : Rune} {rest : List Rune} {negated : Bool} {ranges : List (Nat × Nat)}
    (staged : mode.stage.next? c = Stage.start? c)
    (reads : readItems mode (c :: rest) = startRange negated ranges c >>= fun next => readItems next rest) :
    Steps mode c rest := by
  unfold Steps
  rw [staged, reads]
  unfold startRange Stage.start?
  split
  · exact .inl ⟨rfl, rfl⟩
  · split
    · exact .inr ⟨.lowEscape negated ranges, rfl, .rfl⟩
    · cases c with
      | char c => exact .inr ⟨.between negated ranges c.toNat, rfl, .rfl⟩
      | stray byte => exact .inl ⟨rfl, rfl⟩

theorem steps_of_endRange {mode : Mode} {c : Rune} {rest : List Rune} {negated : Bool} {ranges : List (Nat × Nat)}
    {low : Nat} (staged : mode.stage.next? c = Stage.bounded? .closing c)
    (reads : readItems mode (c :: rest) = endRange negated ranges low c >>= fun next => readItems next rest) :
    Steps mode c rest := by
  unfold Steps
  rw [staged, reads]
  cases c with
  | char c => exact .inr ⟨.closing negated (ranges ++ [(low, c.toNat)]), rfl, .rfl⟩
  | stray byte => exact .inl ⟨rfl, rfl⟩

theorem steps (mode : Mode) (c : Rune) (rest : List Rune) : Steps mode c rest := by
  cases mode with
  | outside =>
    by_cases opens : c = '['
    · exact .inr ⟨.opening, by simp [Mode.stage, Stage.next?, opens], by simp [readItems, opens]⟩
    by_cases escapes : c = '\\'
    · exact .inr ⟨.escape, by simp [Mode.stage, Stage.next?, escapes], by simp [readItems, escapes]⟩
    refine .inr ⟨.outside, by simp [Mode.stage, Stage.next?, opens, escapes], ?_⟩
    by_cases any : c = '?'
    · simp only [readItems, any, if_true]
      exact prepend_malformed
    · simp only [readItems, opens, escapes, any, if_false]
      exact prepend_malformed
  | escape => exact .inr ⟨.outside, rfl, prepend_malformed⟩
  | opening =>
    by_cases negates : c = '^'
    · exact .inr ⟨.low true [], by simp [Mode.stage, Stage.next?, negates], by simp [readItems, negates]⟩
    · apply steps_of_startRange
      · simp [Mode.stage, Stage.next?, negates]
      · simp only [readItems, negates, if_false]
        rfl
  | low negated ranges => exact steps_of_startRange rfl rfl
  | lowEscape negated ranges =>
    cases c with
    | char c => exact .inr ⟨.between negated ranges c.toNat, rfl, .rfl⟩
    | stray byte => exact .inl ⟨rfl, rfl⟩
  | between negated ranges low =>
    by_cases spans : c = '-'
    · exact .inr ⟨.high negated ranges low, by simp [Mode.stage, Stage.next?, spans], by simp [readItems, spans]⟩
    by_cases closes : c = ']'
    · refine .inr ⟨.outside, by simp [Mode.stage, Stage.next?, closes], ?_⟩
      simp only [readItems, closes, if_true]
      exact prepend_malformed
    · apply steps_of_startRange
      · simp [Mode.stage, Stage.next?, spans, closes]
      · simp only [readItems, spans, closes, if_false]
        rfl
  | high negated ranges low =>
    by_cases stops : c = '-' ∨ c = ']'
    · exact .inl ⟨by simp [Mode.stage, Stage.next?, stops], by simp only [readItems, stops, if_true]; rfl⟩
    by_cases escapes : c = '\\'
    · exact .inr ⟨.highEscape negated ranges low, by simp [Mode.stage, Stage.next?, escapes],
        by simp [readItems, escapes]⟩
    · apply steps_of_endRange
      · simp [Mode.stage, Stage.next?, stops, escapes]
      · simp only [readItems, stops, escapes, if_false]
        rfl
  | highEscape negated ranges low => exact steps_of_endRange rfl rfl
  | closing negated ranges =>
    by_cases closes : c = ']'
    · refine .inr ⟨.outside, by simp [Mode.stage, Stage.next?, closes], ?_⟩
      simp only [readItems, closes, if_true]
      exact prepend_malformed
    · apply steps_of_startRange
      · simp [Mode.stage, Stage.next?, closes]
      · simp only [readItems, closes, if_false]
        rfl

/-- The reader fails on exactly the texts that its stages do not lead through. -/
theorem readItems_malformed {mode : Mode} {text : List Rune} :
    readItems mode text = .error .malformed ↔ ¬mode.stage.Finishes text := by
  induction text generalizing mode with
  | nil =>
    rw [Stage.finishes_nil]
    cases mode <;> simp [readItems, Mode.stage, throw, throwThe, MonadExceptOf.throw, pure, Except.pure]
  | cons c rest ih =>
    rw [Stage.finishes_cons]
    obtain ⟨stuck, failed⟩ | ⟨next, staged, same⟩ := steps mode c rest
    · simp [stuck, failed]
    · rw [same, ih, staged]
      simp

/-! ### What the grammar writes is read -/

namespace Stage

/-- Where a range may start. Behind an opening bracket a caret is no part of one. -/
def Ready (stage : Stage) (text : List Rune) : Prop :=
  stage = .low ∨ stage = .between ∨ stage = .closing ∨ (stage = .opening ∧ text.head? ≠ some '^')

def Closable (stage : Stage) : Prop := stage = .between ∨ stage = .closing

theorem Closable.ready {stage : Stage} (closable : stage.Closable) (text : List Rune) : stage.Ready text := by
  obtain rfl | rfl := closable
  · exact .inr (.inl rfl)
  · exact .inr (.inr (.inl rfl))

theorem Ready.next? {stage : Stage} {c : Rune} {rest : List Rune} (ready : stage.Ready (c :: rest))
    (free : c ≠ '-' ∧ c ≠ ']') : stage.next? c = start? c := by
  obtain rfl | rfl | rfl | ⟨rfl, plain⟩ := ready
  · rfl
  · simp [Stage.next?, free]
  · simp [Stage.next?, free]
  · have differs : c ≠ '^' := by simpa using plain
    simp [Stage.next?, differs]

end Stage

theorem Member.read_low {text : List Rune} (member : Member text) {stage : Stage} (ready : stage.Ready text) :
    stage.read? text = some .between := by
  cases member with
  | plain free =>
    rw [Stage.read?_cons, ready.next? (by simpa using free.2)]
    simp [Stage.start?, Stage.bounded?, free]
  | escaped c =>
    rw [Stage.read?_cons, ready.next? (by decide)]
    rfl

theorem Member.read_high {text : List Rune} (member : Member text) : Stage.high.read? text = some .closing := by
  cases member with
  | plain free => simp [Stage.read?_cons, Stage.next?, Stage.bounded?, free]
  | escaped c => rfl

theorem Range.read {text : List Rune} (range : Range text) {stage : Stage} (ready : stage.Ready text) :
    ∃ last, stage.read? text = some last ∧ last.Closable := by
  cases range with
  | single member => exact ⟨.between, member.read_low ready, .inl rfl⟩
  | @span low high first second =>
    have start : stage.Ready low := by
      obtain ⟨c, rest, rfl⟩ := List.exists_cons_of_ne_nil first.ne_nil
      exact ready
    refine ⟨.closing, ?_, .inr rfl⟩
    rw [Stage.read?_append, first.read_low start]
    exact second.read_high

theorem Row.read_ranges {text : List Rune} (row : Row Range text) (filled : text ≠ []) {stage : Stage}
    (ready : stage.Ready text) : ∃ last, stage.read? text = some last ∧ last.Closable := by
  induction row with
  | nil => exact absurd rfl filled
  | @snoc text part row range ih =>
    cases text with
    | nil => exact range.read ready
    | cons c rest =>
      obtain ⟨middle, first, closable⟩ := ih (List.cons_ne_nil c rest) ready
      obtain ⟨last, second, closable⟩ := range.read (closable.ready part)
      exact ⟨last, by rw [Stage.read?_append, first]; exact second, closable⟩

theorem Term.read {text : List Rune} (term : Term text) : Stage.outside.read? text = some .outside := by
  cases term with
  | star => rfl
  | any => rfl
  | literal free => simp [Stage.read?_cons, Stage.next?, free]
  | escaped c => rfl
  | @oneOf negated text row filled plain =>
    obtain ⟨stage, opened, ready⟩ : ∃ stage, Stage.outside.read? (bracket negated) = some stage ∧ stage.Ready text := by
      cases negated with
      | false => exact ⟨.opening, rfl, .inr (.inr (.inr ⟨rfl, plain rfl⟩))⟩
      | true => exact ⟨.low, rfl, .inl rfl⟩
    obtain ⟨last, inner, closable⟩ := row.read_ranges filled ready
    rw [List.append_assoc, Stage.read?_append, opened, Option.bind_some, Stage.read?_append, inner, Option.bind_some]
    obtain rfl | rfl := closable
    · rfl
    · rfl

theorem Row.finishes {text : List Rune} (proper : Proper text) : Stage.outside.Finishes text := by
  induction proper with
  | nil => rfl
  | snoc row term ih =>
    unfold Stage.Finishes at ih ⊢
    rw [Stage.read?_append, ih]
    exact term.read

/-! ### What is read was written by the grammar -/

/-- A class from its bracket on: whole ranges, and what has been read of the next one. -/
def Opened (tail opened : List Rune) : Prop :=
  ∃ negated text, opened = bracket negated ++ text ++ tail ∧ Row Range text ∧
    (negated = false → (text ++ tail).head? ≠ some '^')

namespace Opened

variable {tail opened : List Rune}

theorem grow (begun : Opened tail opened) (filled : tail ≠ []) (more : List Rune) :
    Opened (tail ++ more) (opened ++ more) := by
  obtain ⟨negated, text, rfl, row, plain⟩ := begun
  refine ⟨negated, text, by simp, row, fun positive => ?_⟩
  rw [← List.append_assoc, List.head?_append_of_ne_nil _ (by simp [filled])]
  exact plain positive

theorem more (begun : Opened tail opened) (range : Range tail) (next : List Rune) : Opened next (opened ++ next) := by
  obtain ⟨negated, text, rfl, row, plain⟩ := begun
  refine ⟨negated, text ++ tail, by simp, row.snoc range, fun positive => ?_⟩
  rw [List.head?_append_of_ne_nil _ (by simp [range.ne_nil])]
  exact plain positive

theorem close (begun : Opened tail opened) (range : Range tail) : Term (opened ++ [.char ']']) := by
  obtain ⟨negated, text, rfl, row, plain⟩ := begun
  rw [List.append_assoc (bracket negated)]
  exact .oneOf (row.snoc range) (by simp [range.ne_nil]) plain

theorem first {negated : Bool} {c : Rune} (plain : negated = false → c ≠ '^') :
    Opened [c] (bracket negated ++ [c]) :=
  ⟨negated, [], by simp, .nil, fun positive => by simpa using plain positive⟩

end Opened

namespace Stage

def Holds : Stage → List Rune → Prop
  | .outside, opened => opened = []
  | .escape, opened => opened = ['\\']
  | .opening, opened => opened = bracket false
  | .low, opened => opened = bracket true
  | .lowEscape, opened => Opened ['\\'] opened
  | .between, opened => ∃ low, Member low ∧ Opened low opened
  | .high, opened => ∃ low, Member low ∧ Opened (low ++ [.char '-']) opened
  | .highEscape, opened => ∃ low, Member low ∧ Opened (low ++ [.char '-', .char '\\']) opened
  | .closing, opened => ∃ range, Range range ∧ Opened range opened

/-- The reader has read proper terms, and the start of one more. -/
def Behind (stage : Stage) (text : List Rune) : Prop :=
  ∃ done opened, text = done ++ opened ∧ Proper done ∧ stage.Holds opened

/-- The next character completes a term, or belongs to the one that is open. -/
def Goes (stage : Stage) (opened : List Rune) : Prop :=
  stage.Holds opened ∨ (stage = .outside ∧ Term opened)

theorem bounded?_eq_some {next last : Stage} {c : Rune} :
    bounded? next c = some last ↔ last = next ∧ ∃ char : Char, c = char := by
  cases c with
  | char c => simp [bounded?, eq_comm]
  | stray byte => simp [bounded?]

theorem holds_start {c : Rune} {opened : List Rune} {next : Stage} (begun : Opened [c] opened)
    (started : start? c = some next) : next.Holds opened := by
  unfold start? at started
  split at started
  · cases started
  rename_i free
  split at started
  · rename_i escapes
    cases started
    rw [escapes] at begun
    exact begun
  · rename_i plain
    obtain ⟨rfl, c, rfl⟩ := bounded?_eq_some.mp started
    exact ⟨[.char c], .plain (by simpa using And.intro plain free), begun⟩

theorem goes_outside {next : Stage} {c : Rune} (step : Stage.outside.next? c = some next) : next.Goes [c] := by
  simp only [Stage.next?] at step
  split at step
  · rename_i opens
    cases step
    exact .inl (by rw [opens]; rfl)
  rename_i outer
  split at step
  · rename_i escapes
    cases step
    exact .inl (by rw [escapes]; rfl)
  rename_i plain
  cases step
  refine .inr ⟨rfl, ?_⟩
  by_cases star : c = '*'
  · rw [star]
    exact .star
  by_cases any : c = '?'
  · rw [any]
    exact .any
  · exact .literal ⟨star, any, plain, outer⟩

theorem goes_between {next : Stage} {c : Rune} {low opened : List Rune} (member : Member low)
    (begun : Opened low opened) (step : Stage.between.next? c = some next) : next.Goes (opened ++ [c]) := by
  simp only [Stage.next?] at step
  split at step
  · rename_i spans
    cases step
    rw [spans]
    exact .inl ⟨low, member, begun.grow member.ne_nil ['-']⟩
  split at step
  · rename_i closes
    cases step
    rw [closes]
    exact .inr ⟨rfl, begun.close (.single member)⟩
  · exact .inl (holds_start (begun.more (.single member) [c]) step)

theorem goes_high {next : Stage} {c : Rune} {low opened : List Rune} (member : Member low)
    (begun : Opened (low ++ [.char '-']) opened) (step : Stage.high.next? c = some next) : next.Goes (opened ++ [c]) := by
  have grown := begun.grow (by simp) [c]
  rw [List.append_assoc] at grown
  simp only [Stage.next?] at step
  split at step
  · cases step
  rename_i free
  split at step
  · rename_i escapes
    cases step
    rw [escapes] at grown ⊢
    exact .inl ⟨low, member, grown⟩
  · rename_i plain
    obtain ⟨rfl, c, rfl⟩ := bounded?_eq_some.mp step
    exact .inl ⟨_, .span member (.plain (by simpa using And.intro plain free)), grown⟩

theorem Holds.step {stage next : Stage} {opened : List Rune} {c : Rune} (holds : stage.Holds opened)
    (step : stage.next? c = some next) : next.Goes (opened ++ [c]) := by
  cases stage with
  | outside =>
    have empty : opened = [] := holds
    rw [empty]
    exact goes_outside step
  | escape =>
    cases step
    have escaped : opened = ['\\'] := holds
    rw [escaped]
    exact .inr ⟨rfl, .escaped c⟩
  | opening =>
    have bare : opened = bracket false := holds
    rw [bare]
    simp only [Stage.next?] at step
    split at step
    · rename_i negates
      cases step
      exact .inl (by rw [negates]; rfl)
    · rename_i plain
      exact .inl (holds_start (.first fun _ => plain) step)
  | low =>
    have bare : opened = bracket true := holds
    rw [bare]
    exact .inl (holds_start (.first nofun) step)
  | lowEscape =>
    obtain ⟨rfl, c, rfl⟩ := bounded?_eq_some.mp step
    exact .inl ⟨['\\', .char c], .escaped c, Opened.grow holds (by simp) [.char c]⟩
  | between =>
    obtain ⟨low, member, begun⟩ := holds
    exact goes_between member begun step
  | high =>
    obtain ⟨low, member, begun⟩ := holds
    exact goes_high member begun step
  | highEscape =>
    obtain ⟨rfl, c, rfl⟩ := bounded?_eq_some.mp step
    obtain ⟨low, member, begun⟩ := holds
    have grown := begun.grow (by simp) [.char c]
    rw [List.append_assoc] at grown
    exact .inl ⟨_, .span member (.escaped c), grown⟩
  | closing =>
    obtain ⟨range, whole, begun⟩ := holds
    simp only [Stage.next?] at step
    split at step
    · rename_i closes
      cases step
      rw [closes]
      exact .inr ⟨rfl, begun.close whole⟩
    · exact .inl (holds_start (begun.more whole [c]) step)

theorem Behind.step {stage next : Stage} {text : List Rune} {c : Rune} (behind : stage.Behind text)
    (step : stage.next? c = some next) : next.Behind (text ++ [c]) := by
  obtain ⟨done, opened, rfl, proper, holds⟩ := behind
  rw [List.append_assoc]
  obtain begun | ⟨rfl, term⟩ := holds.step step
  · exact ⟨done, opened ++ [c], rfl, proper, begun⟩
  · exact ⟨done ++ (opened ++ [c]), [], by simp, proper.snoc term, rfl⟩

theorem Behind.run {stage last : Stage} {text rest : List Rune} (behind : stage.Behind text)
    (read : stage.read? rest = some last) : last.Behind (text ++ rest) := by
  induction rest generalizing stage text with
  | nil =>
    cases read
    simpa using behind
  | cons c rest ih =>
    rw [read?_cons] at read
    obtain ⟨next, step, read⟩ := Option.bind_eq_some_iff.mp read
    simpa using ih (behind.step step) read

end Stage

/-- The stages lead through exactly the proper texts. -/
theorem finishes_iff_proper {text : List Rune} : Stage.outside.Finishes text ↔ Proper text := by
  refine ⟨fun finishes => ?_, Row.finishes⟩
  have start : Stage.outside.Behind [] := ⟨[], [], rfl, .nil, rfl⟩
  obtain ⟨done, opened, read, proper, closed⟩ := start.run finishes
  have empty : opened = [] := closed
  have whole : text = done := by simpa [empty] using read
  rw [whole]
  exact proper

end ClauseReach.Glob
