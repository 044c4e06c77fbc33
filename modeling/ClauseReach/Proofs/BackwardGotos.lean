import Mathlib.Data.List.Nodup
import ClauseReach.Proofs.Totality

/-!
What a function leaves unresolved. A `goto` is answered by the first label of its name behind it. If labels are
defined once, the unanswered ones are those that go back and those that go nowhere, and a checked function lists
their labels in the order in which it came to them, and nothing else.
-/

namespace ClauseReach.Source

def labelsOf (marks : List Mark) : List String := marks.filterMap Mark.label?

/-- The names of the `goto`s that come behind their label, and of those whose label is nowhere, in source order.
The labels in `passed` have come before. -/
def backwardGotos (passed : List String) : List Mark → List String
  | [] => []
  | .goto name :: rest =>
    if name ∈ passed ∨ name ∉ passed ++ labelsOf rest then name :: backwardGotos passed rest
    else backwardGotos passed rest
  | .label name :: rest => backwardGotos (passed ++ [name]) rest
  | .clause _ :: rest => backwardGotos passed rest

def unanswered : List Mark → List String
  | [] => []
  | .goto name :: rest => if name ∈ labelsOf rest then unanswered rest else name :: unanswered rest
  | .label _ :: rest => unanswered rest
  | .clause _ :: rest => unanswered rest

theorem backwardGotos_eq {marks : List Mark} {passed : List String} (unique : (passed ++ labelsOf marks).Nodup) :
    backwardGotos passed marks = unanswered marks := by
  induction marks generalizing passed with
  | nil => rfl
  | cons mark rest ih =>
    cases mark with
    | goto name =>
      have later : backwardGotos passed rest = unanswered rest := ih unique
      have apart := List.disjoint_of_nodup_append unique
      by_cases answered : name ∈ labelsOf rest
      · have fresh : name ∉ passed := fun known => apart known answered
        simp [backwardGotos, unanswered, answered, fresh, later]
      · simp [backwardGotos, unanswered, answered, Classical.em, later]
    | label name => exact ih (by simpa [labelsOf, Mark.label?] using unique)
    | clause found => exact ih unique

/-- What is on its way behind the marks: of what was on its way before, the part that no label takes up, and then the
new names among the unanswered `goto`s. -/
theorem follow_marks (marks : List Mark) (sought : List String) :
    marks.foldl Mark.follow sought =
      sought.filter (· ∉ labelsOf marks) ++
        ((unanswered marks).filter (· ∉ sought.filter (· ∉ labelsOf marks))).eraseDups := by
  induction marks generalizing sought with
  | nil => simp [labelsOf, unanswered]
  | cons mark rest ih =>
    rw [List.foldl_cons, ih]
    cases mark with
    | goto name =>
      have labels : labelsOf (.goto name :: rest) = labelsOf rest := rfl
      rw [labels]
      by_cases answered : name ∈ labelsOf rest
      · have kept : (Mark.follow sought (.goto name)).filter (· ∉ labelsOf rest) =
            sought.filter (· ∉ labelsOf rest) := by
          simp only [Mark.follow]
          split <;> simp [answered]
        simp only [kept, unanswered, if_pos answered]
      · by_cases known : name ∈ sought
        · simp [Mark.follow, unanswered, answered, known]
        · have kept : (Mark.follow sought (.goto name)).filter (· ∉ labelsOf rest) =
              sought.filter (· ∉ labelsOf rest) ++ [name] := by simp [Mark.follow, known, answered]
          have fresh : name ∉ sought.filter (· ∉ labelsOf rest) := fun member => known (List.mem_filter.mp member).1
          rw [kept, unanswered, if_neg answered]
          generalize sought.filter (· ∉ labelsOf rest) = others at fresh ⊢
          rw [List.filter_cons_of_pos (by simpa using fresh), List.eraseDups_cons, List.filter_filter,
            List.append_assoc, List.singleton_append]
          congr 3
          apply List.filter_congr
          intro other _
          by_cases same : other = name <;> simp [same]
    | label name =>
      have labels : labelsOf (.label name :: rest) = name :: labelsOf rest := rfl
      have kept : (Mark.follow sought (.label name)).filter (· ∉ labelsOf rest) =
          sought.filter (· ∉ name :: labelsOf rest) := by
        simp [Mark.follow, List.filter_filter, Bool.and_comm]
      rw [labels, kept]
      rfl
    | clause found => rfl

theorem nodup_follow {sought : List String} (distinct : sought.Nodup) (mark : Mark) :
    (mark.follow sought).Nodup := by
  cases mark with
  | goto name =>
    simp only [Mark.follow]
    split
    next => exact distinct
    next new => exact List.concat_eq_append ▸ distinct.concat new
  | label name => exact distinct.filter _
  | clause found => exact distinct

theorem nodup_follow_marks (marks : List Mark) : (marks.foldl Mark.follow []).Nodup := by
  have kept (marks : List Mark) : ∀ sought : List String, sought.Nodup → (marks.foldl Mark.follow sought).Nodup := by
    induction marks with
    | nil => exact fun sought distinct => distinct
    | cons mark rest ih => exact fun sought distinct => ih _ (nodup_follow distinct mark)
  exact kept marks [] .nil

theorem mem_unanswered {marks : List Mark} {name : String} :
    name ∈ unanswered marks ↔ ∃ before after, marks = before ++ .goto name :: after ∧ name ∉ labelsOf after := by
  induction marks with
  | nil => simp [unanswered]
  | cons mark rest ih =>
    have onward : (∃ before after, mark :: rest = before ++ .goto name :: after ∧ name ∉ labelsOf after) ↔
        (mark = .goto name ∧ name ∉ labelsOf rest) ∨ name ∈ unanswered rest := by
      rw [ih]
      constructor
      · rintro ⟨before, after, same, absent⟩
        cases before with
        | nil =>
          cases same
          exact .inl ⟨rfl, absent⟩
        | cons first before =>
          cases same
          exact .inr ⟨before, after, rfl, absent⟩
      · rintro (⟨rfl, absent⟩ | ⟨before, after, rfl, absent⟩)
        · exact ⟨[], rest, rfl, absent⟩
        · exact ⟨mark :: before, after, rfl, absent⟩
    rw [onward]
    cases mark with
    | goto other =>
      by_cases answered : other ∈ labelsOf rest
      · rw [unanswered, if_pos answered]
        refine (or_iff_right ?_).symm
        rintro ⟨same, absent⟩
        cases same
        exact absent answered
      · rw [unanswered, if_neg answered, List.mem_cons]
        refine or_congr_left ⟨?_, ?_⟩
        · rintro rfl
          exact ⟨rfl, answered⟩
        · rintro ⟨same, _⟩
          cases same
          rfl
    | label other => simp [unanswered]
    | clause found => simp [unanswered]

theorem mem_backwardGotos {marks : List Mark} (unique : (labelsOf marks).Nodup) {name : String} :
    name ∈ backwardGotos [] marks ↔ ∃ before after, marks = before ++ .goto name :: after ∧
      (name ∈ labelsOf before ∨ name ∉ labelsOf marks) := by
  rw [backwardGotos_eq unique, mem_unanswered]
  refine exists_congr fun before => exists_congr fun after => and_congr_right fun same => ?_
  have labels : labelsOf marks = labelsOf before ++ labelsOf after := by
    rw [same, labelsOf, List.filterMap_append]
    rfl
  rw [labels] at unique ⊢
  have apart := List.disjoint_of_nodup_append unique
  constructor
  · intro absent
    by_cases passed : name ∈ labelsOf before
    · exact .inl passed
    · exact .inr (by simp [passed, absent])
  · rintro (passed | nowhere) member
    · exact apart passed member
    · exact nowhere (List.mem_append_right _ member)

end ClauseReach.Source

namespace ClauseReach.Checker

open Source

/-- Of a function whose labels are defined once and whose `continue`s name loops, exactly the labels of `goto`s that
go back or nowhere are left unresolved, in the order in which they come. -/
theorem unresolved_backward (info : Info) {body : List Stmt} (shape : shapedAll body = true)
    (unique : (labelsOf (marksOfAll body)).Nodup) (led : misnamesAll [] body = false) :
    ∃ result, checkFunction info body = .ok result ∧
      result.unresolved = (backwardGotos [] (marksOfAll body)).eraseDups.map placeOf ∧
      result.unresolved.Nodup ∧
      (∀ dest ∈ result.unresolved, ∃ label, dest = some label ∧ label.kind = .user) ∧
      ∀ name, placeOf name ∈ result.unresolved ↔ ∃ before after, marksOfAll body = before ++ .goto name :: after ∧
        (name ∈ labelsOf before ∨ name ∉ labelsOf (marksOfAll body)) := by
  obtain ⟨result, checked, concludes⟩ := concludes_of_shaped info shape (.inr led)
  have allNamed : ∀ dest ∈ result.unresolved, isNamed dest = true :=
    fun dest member => (concludes.others dest member).resolve_right And.right
  have listed : result.unresolved = ((marksOfAll body).foldl Mark.follow []).map placeOf := by
    rw [← concludes.named, List.filter_eq_self.mpr allNamed]
  have backward : (marksOfAll body).foldl Mark.follow [] = (backwardGotos [] (marksOfAll body)).eraseDups := by
    rw [backwardGotos_eq unique]
    simpa using follow_marks (marksOfAll body) []
  refine ⟨result, checked, backward ▸ listed, ?_, ?_, ?_⟩
  · rw [listed]
    exact (nodup_follow_marks _).map placeOf_injective
  · intro dest member
    rw [listed] at member
    obtain ⟨name, _, rfl⟩ := List.mem_map.mp member
    exact ⟨_, rfl, rfl⟩
  · intro name
    rw [listed, backward, List.mem_map_of_injective placeOf_injective, List.mem_eraseDups, mem_backwardGotos unique]

/-- A loop with `goto`s into all directions, one of them in a case that is never taken. -/
def backAndForth : List Stmt :=
  let constant (value : Int) : Expr := .literal (some (.known none (some (.int value))))
  [.labeled "top" (.loop .empty none .empty
      [.switch .empty (some (constant 1))
        [⟨10, some [constant 2], none, [.jump (.goto (some "never")), .jump .fallthrough]⟩,
          ⟨20, none, none, [.jump (.continue (some "top")), .jump (.goto (some "top"))]⟩],
        .jump (.goto (some "end")), .jump (.break (some "top"))]),
    .jump (.goto (some "top")), .labeled "end" .empty, .jump (.goto (some "never"))]

theorem backAndForth_unresolved : shapedAll backAndForth = true ∧ (labelsOf (marksOfAll backAndForth)).Nodup ∧
    misnamesAll [] backAndForth = false ∧ ∃ result, checkFunction nothingKnown backAndForth = .ok result ∧
      result.unresolved = [placeOf "never", placeOf "top"] := by
  have unique : (labelsOf (marksOfAll backAndForth)).Nodup := by decide
  obtain ⟨result, checked, listed, _⟩ := unresolved_backward nothingKnown rfl unique rfl
  exact ⟨rfl, unique, rfl, result, checked, listed⟩

end ClauseReach.Checker
