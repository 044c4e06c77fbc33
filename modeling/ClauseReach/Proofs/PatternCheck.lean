import ClauseReach.Proofs.PatternSyntax
import ClauseReach.Proofs.Runes
import ClauseReach.SettingsFile

/-!
The check of the patterns in the settings. Cutting a pattern at its stars keeps whether it can be read: a star inside
brackets is no cut, and outside them the reader takes a star for a plain character. Matching reads every segment,
whatever the name is, so whether a pattern is malformed does not depend on the name. The check at loading looks at the
empty name only, and still lets no pattern through that could fail later.
-/

namespace ClauseReach.Glob

open Text
open Utf8 (Rune)

namespace Stage

def isEscape : Stage → Bool
  | .escape | .lowEscape | .highEscape => true
  | _ => false

def inClass : Stage → Bool
  | .outside | .escape => false
  | _ => true

theorem next?_escaped {stage middle last : Stage} {c : Rune} (settled : stage.isEscape = false)
    (first : stage.next? '\\' = some middle) (second : middle.next? c = some last) :
    last.isEscape = false ∧ last.inClass = stage.inClass := by
  cases stage with
  | outside =>
    cases first
    cases second
    exact ⟨rfl, rfl⟩
  | opening | low | between | closing | high =>
    cases first
    obtain ⟨rfl, _⟩ := bounded?_eq_some.mp second
    exact ⟨rfl, rfl⟩
  | escape | lowEscape | highEscape => cases settled

theorem next?_settled {stage next : Stage} {c : Rune} (settled : stage.isEscape = false) (plain : c ≠ '\\')
    (step : stage.next? c = some next) :
    next.isEscape = false ∧ next.inClass = if c = '[' then true else if c = ']' then false else stage.inClass := by
  cases stage <;> simp only [next?, start?] at step <;> grind [isEscape, inClass, bounded?_eq_some]

end Stage

theorem Stage.eq_outside {stage : Stage} (settled : stage.isEscape = false) (outer : stage.inClass = false) :
    stage = .outside := by
  cases stage <;> simp_all [isEscape, inClass]

theorem Stage.finishes_star {rest : List Rune} : Stage.outside.Finishes ('*' :: rest) ↔ Stage.outside.Finishes rest :=
  .rfl

/-- A text can be read if what is cut from its end can be, and the rest of it. -/
theorem Stage.finishes_cons_cut {stage : Stage} {c : Rune} {rest text : List Rune} {others : Prop}
    (each : ∀ next, stage.next? c = some next → (next.Finishes rest ↔ next.Finishes text ∧ others)) :
    stage.Finishes (c :: rest) ↔ stage.Finishes (c :: text) ∧ others := by
  rw [finishes_cons, finishes_cons]
  constructor
  · intro given
    obtain ⟨next, step, finishes⟩ := given
    obtain ⟨head, tail⟩ := (each next step).mp finishes
    exact ⟨⟨next, step, head⟩, tail⟩
  · intro given
    obtain ⟨⟨next, step, head⟩, tail⟩ := given
    exact ⟨next, step, (each next step).mpr ⟨head, tail⟩⟩

/-- Cutting a text at its stars keeps whether it can be read: a cut is made where the reader is outside. -/
theorem finishes_split {stage : Stage} (settled : stage.isEscape = false) (pattern : List Rune) :
    stage.Finishes pattern ↔ stage.Finishes (split stage.inClass pattern).1 ∧
      ∀ segment ∈ (split stage.inClass pattern).2, Stage.outside.Finishes segment.text := by
  generalize inside : stage.inClass = flag
  induction flag, pattern using split.induct generalizing stage with
  | case1 flag => simp [split]
  | case2 flag c rest text later cut ih =>
    simp only [split, cut]
    refine Stage.finishes_cons_cut fun middle first => Stage.finishes_cons_cut fun last second => ?_
    obtain ⟨settled', same⟩ := Stage.next?_escaped settled first second
    have ih := ih settled' (same.trans inside)
    rwa [cut] at ih
  | case3 flag c rest alone star next later cut ih =>
    obtain ⟨rfl, outer⟩ := star
    have start := Stage.eq_outside settled (by simpa [inside] using outer)
    subst start
    have ih := @ih .outside rfl rfl
    rw [cut] at ih
    rw [Stage.finishes_star, ih]
    simp [split, outer, cut]
  | case4 flag c rest alone star text later other cut ih =>
    obtain ⟨rfl, outer⟩ := star
    have start := Stage.eq_outside settled (by simpa [inside] using outer)
    subst start
    have ih := @ih .outside rfl rfl
    rw [cut] at ih
    rw [Stage.finishes_star, ih]
    simp [split, outer, cut, Stage.finishes_nil]
  | case5 flag c rest alone inner text later cut ih =>
    have whole : split flag (c :: rest) = (c :: text, later) := by
      simp only [split, inner, cut, if_false]
    rw [whole]
    by_cases escapes : c = '\\'
    · -- A backslash that escapes nothing is at the end of the text.
      cases rest with
      | cons d rest => exact (alone d rest escapes rfl).elim
      | nil =>
        cases cut
        simp
    · refine Stage.finishes_cons_cut fun next step => ?_
      obtain ⟨settled', same⟩ := Stage.next?_settled settled escapes step
      have ih := ih settled' (by rw [same, inside])
      rwa [cut] at ih

theorem proper_iff_segments {pattern : List Rune} :
    Proper pattern ↔ ∀ segment ∈ segments pattern, Stage.outside.Finishes segment.text := by
  rw [← finishes_iff_proper, finishes_split rfl]
  unfold segments
  change Stage.outside.Finishes (split false pattern).1 ∧ _ ↔ _
  split
  · rename_i later cut
    simp [Stage.inClass, cut, Stage.finishes_nil]
  · rename_i text later _ cut
    simp [Stage.inClass, cut]

/-! ### Matching -/

/-- Only the last segment may be empty. -/
def Tidy : List Segment → Prop
  | [] => True
  | segment :: rest => (segment.text = [] → rest = []) ∧ Tidy rest

theorem tidy_split (inside : Bool) (pattern : List Rune) : Tidy (split inside pattern).2 := by
  induction inside, pattern using split.induct with
  | case1 inside => exact trivial
  | case2 inside c rest text later cut ih => simpa [split, cut] using ih
  | case3 inside c rest alone star next later cut ih =>
    simpa [split, star, cut] using ih
  | case4 inside c rest alone star text later other cut ih =>
    simp only [cut] at ih
    have last : text = [] → later = [] := by
      intro empty
      cases later with
      | nil => rfl
      | cons next later => exact (other next later empty rfl).elim
    simpa [split, star, cut, Tidy] using ⟨last, ih⟩
  | case5 inside c rest alone inner text later cut ih =>
    simp only [cut] at ih
    simpa only [split, inner, cut, if_false] using ih

theorem tidy_segments (pattern : List Rune) : Tidy (segments pattern) := by
  have tidy := tidy_split false pattern
  unfold segments
  split
  · rename_i later cut
    rwa [cut] at tidy
  · rename_i text later filled cut
    rw [cut] at tidy
    exact ⟨fun empty => (filled empty).elim, tidy⟩

def Broken (segments : List Segment) : Prop :=
  ∃ segment ∈ segments, readItems .outside segment.text = .error .malformed

theorem broken_cons_of_ok {segment : Segment} {rest : List Segment} {items : List Item}
    (read : readItems .outside segment.text = .ok items) : Broken (segment :: rest) ↔ Broken rest := by
  simp [Broken, read]

theorem check_malformed {segments : List Segment} : check segments = .error .malformed ↔ Broken segments := by
  induction segments with
  | nil => simp [check, Broken, pure, Except.pure]
  | cons segment rest ih =>
    unfold check
    cases read : readItems .outside segment.text with
    | error failure =>
      cases failure
      exact ⟨fun _ => ⟨segment, by simp, read⟩, fun _ => rfl⟩
    | ok items =>
      rw [broken_cons_of_ok read, ← ih]
      rfl

/-- Whatever the name is, every segment is read: to take it off the name, or for its errors alone. -/
theorem matchSegments_malformed {segments : List Segment} (tidy : Tidy segments) (name : Utf8.Bytes) :
    matchSegments segments name = .error .malformed ↔ Broken segments := by
  induction segments generalizing name with
  | nil => simp [matchSegments, Broken, pure, Except.pure]
  | cons segment rest ih =>
    obtain ⟨last, tidy⟩ := tidy
    unfold matchSegments
    split
    · -- The star at the end takes all that is left.
      rename_i star
      have empty : segment.text = [] := by simpa using star.2
      rw [last empty]
      simp [Broken, empty, readItems, pure, Except.pure]
    cases read : readItems .outside segment.text with
    | error failure =>
      cases failure
      exact ⟨fun _ => ⟨segment, by simp, read⟩, fun _ => rfl⟩
    | ok items =>
      rw [broken_cons_of_ok read]
      simp only [bind, Except.bind]
      split
      · exact ih tidy _
      · rw [← check_malformed]
        cases check rest with
        | error failure => simp
        | ok done => simp [pure, Except.pure]

theorem run_malformed_iff (pattern name : Utf8.Bytes) :
    run pattern name = .error .malformed ↔ ¬Proper (Utf8.runes pattern) := by
  unfold run
  rw [matchSegments_malformed (tidy_segments _), proper_iff_segments]
  simp [Broken, readItems_malformed, Mode.stage]

theorem run_of_proper {pattern : Utf8.Bytes} (proper : Proper (Utf8.runes pattern)) (name : Utf8.Bytes) :
    ∃ found, run pattern name = .ok found := by
  cases matched : run pattern name with
  | ok found => exact ⟨found, rfl⟩
  | error failure =>
    cases failure
    exact absurd proper ((run_malformed_iff pattern name).mp matched)

end ClauseReach.Glob

namespace ClauseReach.Settings

open Text Glob
open Utf8 (Bytes)

theorem isMalformed_iff {pattern : Bytes} : isMalformed pattern = true ↔ ¬Proper (Utf8.runes pattern) := by
  rw [← run_malformed_iff pattern []]
  unfold isMalformed
  cases Glob.run pattern [] with
  | ok found => simp
  | error failure =>
    cases failure
    simp

theorem excluded_iff {settings : Settings} {package : Bytes} :
    settings.excluded package = true ↔ ∃ pattern ∈ settings.exclude, Glob.run pattern package = .ok true := by
  unfold excluded
  rw [List.any_eq_true]
  refine exists_congr fun pattern => and_congr_right fun _ => ?_
  cases Glob.run pattern package with
  | ok found => simp
  | error failure => simp

section Loading

variable {γ : Type} {decode : Settings → γ → Option Settings} {content : Option γ} {file : γ} {settings : Settings}
  {pattern : Bytes}

theorem load_unreadable (unread : decode {} file = none) : load decode (some file) = .error .unreadable := by
  unfold load
  simp only [unread]
  rfl

theorem load_badColor (read : decode {} file = some settings) (unknown : settings.color ∉ colors) :
    load decode (some file) = .error (.badColor settings) := by
  unfold load
  simp only [read]
  simp [unknown, bind, Except.bind, throw, throwThe, MonadExceptOf.throw]

/-- Settings read from a file, with a color that there is: what comes to the check of the patterns. -/
def Reads (decode : Settings → γ → Option Settings) (content : Option γ) (settings : Settings) : Prop :=
  ∃ file, content = some file ∧ decode {} file = some settings ∧ settings.color ∈ colors

theorem load_ok (reads : Reads decode content settings) (clean : settings.exclude.find? isMalformed = none) :
    load decode content = .ok settings := by
  obtain ⟨file, rfl, read, known⟩ := reads
  unfold load
  simp only [read]
  simp [known, clean, pure, Except.pure]

theorem load_badPattern (reads : Reads decode content settings)
    (found : settings.exclude.find? isMalformed = some pattern) :
    load decode content = .error (.badPattern settings pattern) := by
  obtain ⟨file, rfl, read, known⟩ := reads
  unfold load
  simp only [read]
  simp [known, found, throw, throwThe, MonadExceptOf.throw]

/-- Everything that can come of loading: it ends as the check of the patterns does, or fails before that. -/
theorem load_cases (decode : Settings → γ → Option Settings) (content : Option γ) :
    (∃ settings, load decode content = .ok settings ∧
      Reads decode content settings ∧ settings.exclude.find? isMalformed = none) ∨
    (∃ settings pattern, load decode content = .error (.badPattern settings pattern) ∧
      Reads decode content settings ∧ settings.exclude.find? isMalformed = some pattern) ∨
    ∃ failure, load decode content = .error failure ∧ ∀ settings pattern, failure ≠ .badPattern settings pattern := by
  cases content with
  | none => exact .inr (.inr ⟨.missing, rfl, nofun⟩)
  | some file =>
    cases read : decode {} file with
    | none => exact .inr (.inr ⟨.unreadable, load_unreadable read, nofun⟩)
    | some settings =>
      by_cases known : settings.color ∈ colors
      · have reads : Reads decode (some file) settings := ⟨file, rfl, read, known⟩
        cases found : settings.exclude.find? isMalformed with
        | none => exact .inl ⟨settings, load_ok reads found, reads, found⟩
        | some pattern => exact .inr (.inl ⟨settings, pattern, load_badPattern reads found, reads, found⟩)
      · exact .inr (.inr ⟨.badColor settings, load_badColor read known, nofun⟩)

theorem load_ok_iff :
    load decode content = .ok settings ↔ Reads decode content settings ∧ settings.exclude.find? isMalformed = none := by
  refine ⟨fun loaded => ?_, fun given => load_ok given.1 given.2⟩
  obtain ⟨other, ended, checked⟩ | ⟨other, pattern, ended, _⟩ | ⟨failure, ended, _⟩ := load_cases decode content
  · cases ended.symm.trans loaded
    exact checked
  · cases ended.symm.trans loaded
  · cases ended.symm.trans loaded

theorem load_badPattern_iff : load decode content = .error (.badPattern settings pattern) ↔
    Reads decode content settings ∧ settings.exclude.find? isMalformed = some pattern := by
  refine ⟨fun loaded => ?_, fun given => load_badPattern given.1 given.2⟩
  obtain ⟨other, ended, _⟩ | ⟨other, first, ended, checked⟩ | ⟨failure, ended, early⟩ := load_cases decode content
  · cases ended.symm.trans loaded
  · cases ended.symm.trans loaded
    exact checked
  · cases ended.symm.trans loaded
    exact (early settings pattern rfl).elim

end Loading

/-- The check at loading is complete, whatever a file is decoded to. Settings are loaded if they can be read and all
their patterns are proper. Then no pattern fails on the path of any package, and the packages that are left out are
those that a pattern matches. The pattern for which loading fails is not proper: it fails on every path, and leaves out
no package. For whether a pattern is proper decides, for every name, whether it can be matched against it, and so it is
enough to match it against the empty one. A pattern is a row of bytes: they are the bytes of its runes, and the runes of
one that was written as a text are the characters. -/
theorem load_checks_patterns {γ : Type} (decode : Settings → γ → Option Settings) (content : Option γ) :
    (∀ settings, load decode content = .ok settings ↔
      Reads decode content settings ∧ ∀ pattern ∈ settings.exclude, Proper (Utf8.runes pattern)) ∧
    (∀ settings, load decode content = .ok settings → ∀ package,
      (∀ pattern ∈ settings.exclude, ∃ found, Glob.run pattern package = .ok found) ∧
      (settings.excluded package = true ↔ ∃ pattern ∈ settings.exclude, Glob.run pattern package = .ok true)) ∧
    (∀ settings pattern, load decode content = .error (.badPattern settings pattern) →
      pattern ∈ settings.exclude ∧ ¬Proper (Utf8.runes pattern) ∧ ∀ package,
        Glob.run pattern package = .error .malformed ∧
          excluded { settings with exclude := [pattern] } package = false) ∧
    (∀ pattern name, (isMalformed pattern = true ↔ Glob.run pattern name = .error .malformed) ∧
      (Glob.run pattern name = .error .malformed ↔ ¬Proper (Utf8.runes pattern))) ∧
    (∀ pattern, (Utf8.runes pattern).flatMap Utf8.Rune.bytes = pattern) ∧
    ∀ text : String, Utf8.runes (Utf8.encode text) = text.toList.map .char := by
  have clean (settings : Settings) :
      settings.exclude.find? isMalformed = none ↔ ∀ pattern ∈ settings.exclude, Proper (Utf8.runes pattern) := by
    simp only [List.find?_eq_none, isMalformed_iff, not_not]
  refine ⟨fun settings => by rw [load_ok_iff, clean], ?_, ?_, fun pattern name => ?_, Utf8.flatMap_bytes_runes,
    Utf8.runes_encode⟩
  · intro settings loaded package
    refine ⟨fun pattern listed => ?_, excluded_iff⟩
    have proper := (clean settings).mp (load_ok_iff.mp loaded).2 pattern listed
    exact run_of_proper proper package
  · intro settings pattern failed
    have found := (load_badPattern_iff.mp failed).2
    have improper := isMalformed_iff.mp (List.find?_some found)
    refine ⟨List.mem_of_find?_eq_some found, improper, fun package => ?_⟩
    have malformed := (run_malformed_iff pattern package).mpr improper
    exact ⟨malformed, by simp [excluded, malformed]⟩
  · rw [isMalformed_iff, run_malformed_iff]
    exact ⟨.rfl, .rfl⟩

section Files

def negatedRange : Bytes := Utf8.encode "b[^c-e]?*"

def openRange : Bytes := Utf8.encode "b*[c-]"

def strayClass : Bytes := [0x5b, 0xff, 0x5d]

theorem load_negatedRange :
    load ofText? (some "exclude: ['b[^c-e]?*']") = .ok { exclude := [negatedRange] } := by
  apply load_ok
  · exact ⟨_, rfl, by decide +kernel, by decide +kernel⟩
  · decide +kernel

theorem load_openRange :
    load ofText? (some "exclude: ['b*[c-]']") = .error (.badPattern { exclude := [openRange] } openRange) := by
  apply load_badPattern
  · exact ⟨_, rfl, by decide +kernel, by decide +kernel⟩
  · decide +kernel

theorem load_strayClass :
    load ofText? (some "exclude: [!!binary W/9d]") = .error (.badPattern { exclude := [strayClass] } strayClass) := by
  apply load_badPattern
  · exact ⟨_, rfl, by decide +kernel, by decide +kernel⟩
  · decide +kernel

end Files

/-- A file with a class that is negated and has a range loads; its pattern can be matched against every package, and
leaves out some of them. A file fails whose pattern has a range without an end, though the mistake stands behind a star
and behind a character that no empty name has. So does one with a byte in a class that is no character. -/
theorem range_without_end :
    (load ofText? (some "exclude: ['b[^c-e]?*']") = .ok { exclude := [negatedRange] } ∧
      (∀ package, ∃ found, Glob.run negatedRange package = .ok found) ∧
      excluded { exclude := [negatedRange] } (Utf8.encode "bfg") = true ∧
      excluded { exclude := [negatedRange] } (Utf8.encode "bcg") = false) ∧
    (load ofText? (some "exclude: ['b*[c-]']") = .error (.badPattern { exclude := [openRange] } openRange) ∧
      ∀ package, Glob.run openRange package = .error .malformed) ∧
    load ofText? (some "exclude: [!!binary W/9d]") = .error (.badPattern { exclude := [strayClass] } strayClass) ∧
      ∀ package, Glob.run strayClass package = .error .malformed := by
  obtain ⟨_, loaded, _, _⟩ := load_checks_patterns ofText? (some "exclude: ['b[^c-e]?*']")
  obtain ⟨_, _, failed, _⟩ := load_checks_patterns ofText? (some "exclude: ['b*[c-]']")
  obtain ⟨_, _, refused, _⟩ := load_checks_patterns ofText? (some "exclude: [!!binary W/9d]")
  have listed : negatedRange ∈ [negatedRange] := List.mem_singleton_self negatedRange
  have matched : Glob.run negatedRange (Utf8.encode "bfg") = .ok true := by decide +kernel
  refine ⟨⟨load_negatedRange, fun package => ?_, ?_, by decide +kernel⟩, ⟨load_openRange, fun package => ?_⟩,
    load_strayClass, fun package => ?_⟩
  · exact (loaded _ load_negatedRange package).1 negatedRange listed
  · exact (loaded _ load_negatedRange _).2.mpr ⟨negatedRange, listed, matched⟩
  · exact ((failed _ _ load_openRange).2.2 package).1
  · exact ((refused _ _ load_strayClass).2.2 package).1

end ClauseReach.Settings
