import ClauseReach.Proofs.Alongside
import ClauseReach.Proofs.Client

/-!
The end of a section is a break. What falls off the end is merged into the exits of the switch at once; what
breaks waits at the label behind the switch and is merged there. Two runs of a switch, one with a break
written at the end of some sections, differ by where such states are kept until then, and that is all that
anything in the switch could tell them apart by.
-/

namespace ClauseReach

open StateAlgebra

variable {σ τ ε ν α : Type}

/-- Two sessions that are the same but for their current states and the branches to one destination. -/
structure AlikeBeside (hidden : Dest) (left right : Session σ τ) : Prop where
  own : left.own = right.own
  resolved : left.pass.resolved = right.pass.resolved
  elsewhere : left.pass.pending.forget hidden = right.pass.pending.forget hidden

/-- Two runs in the same state; to one destination they once had different branches under way, and have sent
the same ones since. -/
structure DifferAt (hidden : Dest) (early late : List σ) (left right : Session σ τ) : Prop
    extends AlikeBeside hidden left right where
  state : left.pass.state = right.pass.state
  added : ∃ more, left.pass.pending.states hidden = early ++ more ∧ right.pass.pending.states hidden = late ++ more

namespace DifferAt

variable {hidden : Dest} {early late : List σ} {left right : Session σ τ}

theorem states_eq (differ : DifferAt hidden early late left right) {dest : Dest} (other : dest ≠ hidden) :
    left.pass.pending.states dest = right.pass.pending.states dest := by
  have same := congrArg (fun pending => pending.states dest) differ.elsewhere
  simpa only [Pending.states_forget, if_neg other] using same

theorem unaware_eq (differ : DifferAt hidden early late left right) : left.unaware hidden = right.unaware hidden := by
  simp only [Session.unaware, differ.own, differ.state, differ.resolved, differ.elsewhere]

theorem record (differ : DifferAt hidden early late left right) (dest : Dest) (state : σ) :
    DifferAt hidden early late { left with pass := left.pass.record dest state }
      { right with pass := right.pass.record dest state } where
  own := differ.own
  state := differ.state
  resolved := differ.resolved
  elsewhere := by
    change (left.pass.pending.record dest state).forget hidden = (right.pass.pending.record dest state).forget hidden
    rw [Pending.forget_record, Pending.forget_record, differ.elsewhere]
  added := by
    obtain ⟨more, first, second⟩ := differ.added
    change ∃ more, (left.pass.pending.record dest state).states hidden = early ++ more ∧
      (right.pass.pending.record dest state).states hidden = late ++ more
    rw [Pending.states_record, Pending.states_record]
    split
    next same =>
      subst same
      exact ⟨more ++ [state], by rw [first, List.append_assoc], by rw [second, List.append_assoc]⟩
    next => exact ⟨more, first, second⟩

theorem resolve [StateAlgebra σ] (differ : DifferAt hidden early late left right) {dest : Dest} (other : dest ≠ hidden) :
    DifferAt hidden early late { left with pass := (left.pass.resolve dest).2 }
      { right with pass := (right.pass.resolve dest).2 } where
  own := differ.own
  state := by
    change (left.pass.pending.states dest).foldl merge left.pass.state =
      (right.pass.pending.states dest).foldl merge right.pass.state
    rw [differ.states_eq other, differ.state]
  resolved := by
    funext count
    simp only [Pass.resolve, differ.resolved, differ.states_eq other]
  elsewhere := by
    change (left.pass.pending.forget dest).forget hidden = (right.pass.pending.forget dest).forget hidden
    rw [Pending.forget_comm, differ.elsewhere, Pending.forget_comm]
  added := by
    change ∃ more, (left.pass.pending.forget dest).states hidden = early ++ more ∧
      (right.pass.pending.forget dest).states hidden = late ++ more
    rw [Pending.states_forget, Pending.states_forget, if_neg other.symm, if_neg other.symm]
    exact differ.added

end DifferAt

/-- A client that does not own a destination makes the same of what is under way there, whatever it is. -/
theorem Client.alongside [StateAlgebra σ] {hidden : Dest} {early late : List σ} {act : Analysis σ τ α}
    (client : Client (· ≠ hidden) act) : Alongside (DifferAt hidden early late) act act := by
  induction client with
  | pure value => exact .pure value
  | fault fault => exact fun _ _ differ => .error differ
  | look read blind =>
    intro left right differ
    have unowned : ¬hidden ≠ hidden := fun other => other rfl
    have same : read left = read right := by
      rw [← blind hidden unowned left, ← blind hidden unowned right, differ.unaware_eq]
    change SameOutcome _ (.ok (read left) left) (.ok (read right) right)
    rw [same]
    exact .ok differ
  | keep change =>
    intro left right differ
    exact .ok ⟨⟨congrArg change differ.own, differ.resolved, differ.elsewhere⟩, differ.state, differ.added⟩
  | set state =>
    intro left right differ
    exact .ok ⟨⟨differ.own, differ.resolved, differ.elsewhere⟩, rfl, differ.added⟩
  | record dest state => exact fun _ _ differ => .ok (differ.record dest state)
  | @resolve dest other =>
    intro left right differ
    have kept := differ.resolve other
    have arrived : (left.pass.resolve dest).1 = (right.pass.resolve dest).1 :=
      congrArg List.length (differ.states_eq other)
    change SameOutcome _ (.ok (left.pass.resolve dest).1 _) (.ok (right.pass.resolve dest).1 _)
    rw [arrived]
    exact .ok kept
  | bind _ _ began went => exact .bind began went
  | attempt _ _ began went => exact .attempt began went

section Switches

variable [StateAlgebra σ]

namespace Section

def breaking (brk : Dest) (entered : Section σ τ) : Section σ τ where
  labels := entered.labels
  body := do
    entered.body
    Analysis.branch brk
    Analysis.setUnreachable

/-- What happens in a section; the result tells the states in which its body begins and ends. -/
def visit (entered : Section σ τ) : Analysis σ τ (σ × σ) := do
  Analysis.setUnreachable
  Analysis.resolveAll entered.labels
  let entry ← Analysis.current
  entered.body
  return (entry, ← Analysis.current)

end Section

namespace Switch

def breakingAt (brk : Dest) (chosen : Nat → Bool) (sections : List (Section σ τ)) : List (Section σ τ) :=
  sections.mapIdx fun index entered => if chosen index then entered.breaking brk else entered

/-- Runs the sections; besides their exits, the result tells the state in which each of them is entered. -/
def observeSections (exits : σ) : List (Section σ τ) → Analysis σ τ (σ × List σ)
  | [] => pure (exits, [])
  | entered :: rest => do
    let (entry, last) ← entered.visit
    let (exits, entries) ← observeSections (merge exits last) rest
    return (exits, entry :: entries)

theorem runSections_eq (exits : σ) (sections : List (Section σ τ)) :
    runSections exits sections = Prod.fst <$> observeSections exits sections := by
  induction sections generalizing exits with
  | nil => rfl
  | cons entered rest ih =>
    have unread {α : Type} (act : Analysis σ τ α) : (Analysis.current >>= fun _ => act) = act := rfl
    simp only [runSections, observeSections, Section.visit, ih, unread, map_eq_pure_bind, bind_assoc, pure_bind]

theorem breakingAt_cons (brk : Dest) (chosen : Nat → Bool) (entered : Section σ τ) (rest : List (Section σ τ)) :
    breakingAt brk chosen (entered :: rest) =
      (if chosen 0 then entered.breaking brk else entered) :: breakingAt brk (fun index => chosen (index + 1)) rest :=
  List.mapIdx_cons

theorem labels_breakingAt (brk : Dest) (chosen : Nat → Bool) (sections : List (Section σ τ)) :
    (breakingAt brk chosen sections).flatMap (·.labels) = sections.flatMap (·.labels) := by
  induction sections generalizing chosen with
  | nil => rfl
  | cons entered rest ih =>
    rw [breakingAt_cons, List.flatMap_cons, List.flatMap_cons, ih]
    split <;> rfl

end Switch

namespace AnySwitch

def breakingAt (chosen : Nat → Bool) : AnySwitch σ τ ε ν → AnySwitch σ τ ε ν
  | jump switch => jump { switch with sections := Switch.breakingAt switch.brk chosen switch.sections }
  | tree matcher switch => tree matcher { switch with sections := Switch.breakingAt switch.brk chosen switch.sections }

/-- Runs the switch; the result tells the state in which each section is entered. -/
def observe (switch : AnySwitch σ τ ε ν) : Analysis σ τ (List σ) := do
  let passing ← switch.header
  let (exits, entries) ← Switch.observeSections unreachable switch.sections
  Analysis.setCurrent (merge passing exits)
  let _ ← Analysis.resolve switch.brk
  return entries

theorem run_eq_observe (switch : AnySwitch σ τ ε ν) : switch.run = (fun _ => ()) <$> switch.observe := by
  simp only [run_eq, observe, Switch.finish, Switch.runSections_eq, map_eq_pure_bind, bind_assoc, pure_bind]

variable (chosen : Nat → Bool) (switch : AnySwitch σ τ ε ν)

theorem sections_breakingAt :
    (switch.breakingAt chosen).sections = Switch.breakingAt switch.brk chosen switch.sections := by
  cases switch <;> rfl

theorem brk_breakingAt : (switch.breakingAt chosen).brk = switch.brk := by
  cases switch <;> rfl

theorem header_breakingAt : (switch.breakingAt chosen).header = switch.header := by
  cases switch with
  | jump switch => simp only [breakingAt, header, Switch.labels_breakingAt]
  | tree matcher switch => rfl

end AnySwitch

namespace Section

variable {brk : Dest} {entered : Section σ τ}

theorem visit_client {owned : Dest → Prop} (own : ∀ dest ∈ entered.labels, owned dest)
    (body : Client owned entered.body) : Client owned entered.visit := by
  apply Client.bind (.set unreachable)
  intro _
  apply Client.bind (.resolveAll own)
  intro _
  apply Client.bind .current
  intro entry
  apply Client.bind body
  intro _
  exact .bind .current fun last => .pure (entry, last)

/-- Nobody can tell in which state a section was come to. -/
theorem visit_withState (state : σ) (session : Session σ τ) :
    entered.visit { session with pass := session.pass.withState state } = entered.visit session := rfl

/-- A break at the end sends on what would have fallen off. -/
theorem visit_breaking [TransparentClone σ] (brk : Dest) (entered : Section σ τ) :
    (entered.breaking brk).visit = entered.visit >>= fun (entry, last) => do
      Analysis.record brk last
      Analysis.setUnreachable
      return (entry, unreachable) := by
  have ending (entry : σ) :
      (do Analysis.branch brk; Analysis.setUnreachable; return (entry, ← Analysis.current)) =
        (do Analysis.record brk (← Analysis.current); Analysis.setUnreachable; return (entry, unreachable) :
          Analysis σ τ (σ × σ)) := by
    funext session
    change EStateM.Result.ok _ (Session.mk ((session.pass.record brk (clone session.pass.state)).withState _) _) = _
    rw [TransparentClone.clone_eq]
    rfl
  simp only [visit, breaking, bind_assoc, pure_bind, ending]

end Section

structure ResolvedMore (dest : Dest) (more : Nat) (fewer session : Session σ τ) : Prop where
  own : session.own = fewer.own
  state : session.pass.state = fewer.pass.state
  pending : session.pass.pending = fewer.pass.pending
  resolved : ∀ other, session.pass.resolved other = fewer.pass.resolved other + if other = dest then more else 0

/-- Two runs between sections, of which the second has seen some more breaks. What the first has in its exits
for them, the second has under way. -/
structure Balanced (brk : Dest) (breaks : Nat) (exits others : σ) (left right : Session σ τ) : Prop
    extends AlikeBeside brk left right where
  total : (left.pass.pending.states brk).foldl merge exits = (right.pass.pending.states brk).foldl merge others
  count : (right.pass.pending.states brk).length = (left.pass.pending.states brk).length + breaks

namespace Balanced

variable {brk : Dest} {breaks : Nat} {exits others : σ} {left right : Session σ τ}

theorem cleared (balanced : Balanced brk breaks exits others left right) :
    DifferAt brk (left.pass.pending.states brk) (right.pass.pending.states brk)
      { left with pass := left.pass.withState unreachable } { right with pass := right.pass.withState unreachable } where
  own := balanced.own
  resolved := balanced.resolved
  elsewhere := balanced.elsewhere
  state := rfl
  added := ⟨[], (List.append_nil _).symm, (List.append_nil _).symm⟩

theorem of_differAt {early late : List σ} (differ : DifferAt brk early late left right)
    (total : early.foldl merge exits = late.foldl merge others) (count : late.length = early.length + breaks) :
    Balanced brk breaks exits others left right where
  toAlikeBeside := differ.toAlikeBeside
  total := by
    obtain ⟨more, first, second⟩ := differ.added
    rw [first, second, List.foldl_append, List.foldl_append, total]
  count := by
    obtain ⟨more, first, second⟩ := differ.added
    rw [first, second, List.length_append, List.length_append]
    omega

variable [LawfulMerge σ]

theorem fall (balanced : Balanced brk breaks exits others left right) (last : σ) :
    Balanced brk breaks (merge exits last) (merge others last) left right where
  toAlikeBeside := balanced.toAlikeBeside
  total := by
    rw [LawfulMerge.merge_comm exits, LawfulMerge.merge_comm others, LawfulMerge.foldl_merge_merge,
      LawfulMerge.foldl_merge_merge, balanced.total]
  count := balanced.count

/-- Only the first lets a state fall off the end of a section; the second breaks with it. -/
theorem leave (balanced : Balanced brk breaks exits others left right) (last : σ) :
    Balanced brk (breaks + 1) (merge exits last) (merge others unreachable) left
      { right with pass := (right.pass.record brk last).withState unreachable } where
  own := balanced.own
  resolved := balanced.resolved
  elsewhere := by
    change _ = (right.pass.pending.record brk last).forget brk
    rw [Pending.forget_record, if_pos rfl, balanced.elsewhere]
  total := by
    change _ = ((right.pass.pending.record brk last).states brk).foldl merge _
    rw [Pending.states_record, if_pos rfl, List.foldl_append, LawfulMerge.merge_unreachable, ← balanced.total,
      LawfulMerge.merge_comm exits, LawfulMerge.foldl_merge_merge, LawfulMerge.merge_comm]
    rfl
  count := by
    change ((right.pass.pending.record brk last).states brk).length = _
    rw [Pending.states_record, if_pos rfl, List.length_append, balanced.count]
    rfl

/-- One section keeps the balance, whether the second run breaks at its end or not. -/
theorem visit [TransparentClone σ] (balanced : Balanced brk breaks exits others left right) {entered : Section σ τ}
    (apart : brk ∉ entered.labels) (body : Client (· ≠ brk) entered.body) (chosen : Bool) {entry last : σ}
    {after : Session σ τ} (ran : entered.visit left = .ok (entry, last) after) :
    ∃ ending counterpart,
      (if chosen then entered.breaking brk else entered).visit right = .ok (entry, ending) counterpart ∧
        Balanced brk (breaks + chosen.toNat) (merge exits last) (merge others ending) after counterpart := by
  have client : Client (· ≠ brk) entered.visit :=
    entered.visit_client (fun dest member same => apart (same ▸ member)) body
  -- The section starts from nothing in both runs, and its body cannot tell their queues apart.
  have same := client.alongside _ _ balanced.cleared
  rw [Section.visit_withState, Section.visit_withState, ran] at same
  obtain ⟨counterpart, followed, differ⟩ := same.exists_of_ok
  have still := of_differAt differ balanced.total balanced.count
  cases chosen with
  | false => exact ⟨last, counterpart, followed, still.fall last⟩
  | true =>
    refine ⟨unreachable, _, ?_, still.leave last⟩
    rw [if_pos rfl, Section.visit_breaking, Analysis.bind_ok followed]
    rfl

theorem countP_range_succ (chosen : Nat → Bool) (count : Nat) :
    (List.range (count + 1)).countP chosen =
      (chosen 0).toNat + (List.range count).countP fun index => chosen (index + 1) := by
  rw [List.range_succ_eq_map, List.countP_cons, List.countP_map, Nat.add_comm]
  cases chosen 0 <;> rfl

theorem observeSections [TransparentClone σ] (balanced : Balanced brk breaks exits others left right)
    {sections : List (Section σ τ)} (apart : ∀ entered ∈ sections, brk ∉ entered.labels)
    (bodies : ∀ entered ∈ sections, Client (· ≠ brk) entered.body) (chosen : Nat → Bool) {last : σ} {entries : List σ}
    {after : Session σ τ} (ran : Switch.observeSections exits sections left = .ok (last, entries) after) :
    ∃ ending counterpart,
      Switch.observeSections others (Switch.breakingAt brk chosen sections) right = .ok (ending, entries) counterpart ∧
        Balanced brk (breaks + (List.range sections.length).countP chosen) last ending after counterpart := by
  induction sections generalizing chosen breaks exits others left right last entries after with
  | nil =>
    cases ran
    exact ⟨others, right, rfl, balanced⟩
  | cons entered rest ih =>
    obtain ⟨⟨entry, reached⟩, middle, visited, ran⟩ := Analysis.exists_of_bind_ok ran
    obtain ⟨⟨final, later⟩, _, went, ran⟩ := Analysis.exists_of_bind_ok ran
    cases ran
    obtain ⟨ending, counterpart, followed, still⟩ := balanced.visit (apart entered (List.mem_cons_self ..))
      (bodies entered (List.mem_cons_self ..)) (chosen 0) visited
    obtain ⟨final, finished, further, kept⟩ := ih still (fun other member => apart other (List.mem_cons_of_mem _ member))
      (fun other member => bodies other (List.mem_cons_of_mem _ member)) (fun index => chosen (index + 1)) went
    refine ⟨final, finished, ?_, ?_⟩
    · rw [Switch.breakingAt_cons, Switch.observeSections, Analysis.bind_ok followed]
      exact Analysis.bind_ok further
    · rwa [List.length_cons, countP_range_succ, ← Nat.add_assoc]

/-- Behind the switch the breaks arrive, and nothing but their number is left to tell the runs apart. -/
theorem resolve (balanced : Balanced brk breaks exits others left right) (passing : σ) :
    ResolvedMore brk breaks ⟨((left.pass.withState (merge passing exits)).resolve brk).2, left.own⟩
      ⟨((right.pass.withState (merge passing others)).resolve brk).2, right.own⟩ where
  own := balanced.own.symm
  state := by
    change (right.pass.pending.states brk).foldl merge (merge passing others) =
      (left.pass.pending.states brk).foldl merge (merge passing exits)
    rw [LawfulMerge.foldl_merge_merge, LawfulMerge.foldl_merge_merge, balanced.total]
  pending := balanced.elsewhere.symm
  resolved := by
    intro dest
    simp only [Pass.resolve, Pass.withState, balanced.resolved, balanced.count]
    split <;> omega

end Balanced

/-- Falling off the end of a section is a break. Written out at the end of any sections, it changes neither the
states in which sections are entered nor anything behind the switch but the number of branches that arrived. -/
theorem section_end_is_break [TransparentClone σ] [LawfulMerge σ] (switch : AnySwitch σ τ ε ν) (chosen : Nat → Bool)
    (bodies : ∀ entered ∈ switch.sections, Client (· ≠ switch.brk) entered.body)
    (apart : ∀ entered ∈ switch.sections, switch.brk ∉ entered.labels) {session after : Session σ τ}
    (ran : switch.run session = .ok () after) :
    ∃ changed entries,
      (switch.breakingAt chosen).run session = .ok () changed ∧
        ResolvedMore switch.brk ((List.range switch.sections.length).countP chosen) after changed ∧
        switch.observe session = .ok entries after ∧
        (switch.breakingAt chosen).observe session = .ok entries changed := by
  rw [AnySwitch.run_eq_observe, map_eq_pure_bind] at ran
  obtain ⟨entries, _, observed, ran⟩ := Analysis.exists_of_bind_ok ran
  cases ran
  obtain ⟨passing, middle, began, rest⟩ := Analysis.exists_of_bind_ok observed
  obtain ⟨⟨exits, entered⟩, left, went, rest⟩ := Analysis.exists_of_bind_ok rest
  cases rest
  -- Up to the first section the two runs are the same one.
  have level : Balanced switch.brk 0 unreachable unreachable middle middle := ⟨⟨rfl, rfl, rfl⟩, rfl, rfl⟩
  obtain ⟨others, right, followed, balanced⟩ := level.observeSections apart bodies chosen went
  rw [Nat.zero_add] at balanced
  have counterpart : (switch.breakingAt chosen).observe session =
      .ok entries ⟨((right.pass.withState (merge passing others)).resolve switch.brk).2, right.own⟩ := by
    rw [AnySwitch.observe, AnySwitch.header_breakingAt, AnySwitch.sections_breakingAt, AnySwitch.brk_breakingAt,
      Analysis.bind_ok began, Analysis.bind_ok followed]
    rfl
  refine ⟨_, entries, ?_, balanced.resolve passing, observed, counterpart⟩
  rw [AnySwitch.run_eq_observe, map_eq_pure_bind, Analysis.bind_ok counterpart]
  rfl

end Switches

namespace Script

def behind : Dest := some ⟨0, .break, ""⟩

/-- Sections that are left in all ways: by a break on one path, through a switch of their own, and for elsewhere. -/
def leavingSections : List (List Dest × List (Stmt (May String))) :=
  [([some ⟨1, .case, "1"⟩], [.fact "first", .choose ⟨"c", .pure⟩ [.jump behind] []]),
    ([some ⟨2, .case, "2"⟩],
      [.jumpSwitch none [([some ⟨3, .case, "3"⟩], [.jump behind])] (some ⟨4, .break, ""⟩) none, .fact "second"]),
    ([some ⟨5, .default, ""⟩], [.jump (some ⟨6, .user, "outer"⟩)])]

def leavingAll : AnySwitch (May String) (List (Event (May String))) Expr String :=
  .jump ⟨evalScrutinee (some ⟨"x", .fact⟩), prepare ⟨true, true⟩ leavingSections, behind, none⟩

theorem leavingAll_breaks :
    ∃ after changed entries, leavingAll.run opening = .ok () after ∧
      (leavingAll.breakingAt (· ≠ 1)).run opening = .ok () changed ∧ ResolvedMore behind 2 after changed ∧
      leavingAll.observe opening = .ok entries after ∧
      (leavingAll.breakingAt (· ≠ 1)).observe opening = .ok entries changed := by
  have inside : ∀ entered ∈ leavingAll.sections,
      (∀ dest ∈ entered.labels, dest ≠ behind) ∧ Client (· ≠ behind) entered.body :=
    prepare_client ⟨true, true⟩ leavingSections (by decide)
  have ends : leavingAll.run.run' opening = some () := by decide +kernel
  obtain ⟨after, ran⟩ := Analysis.exists_of_run' ends
  obtain ⟨changed, entries, rest⟩ := section_end_is_break leavingAll (· ≠ 1)
    (fun entered member => (inside entered member).2)
    (fun entered member listed => (inside entered member).1 behind listed rfl) ran
  exact ⟨after, changed, entries, ran, rest⟩

end Script

end ClauseReach
