import ClauseReach.Script.Run

/-!
Clients of a pass. Scrutinees, matchers and the bodies of sections belong to the analysis that makes the pass;
they may do what they like with its data, but they touch the pass by its operations alone. A switch with such
parts is again made of these operations, at whatever depth it stands, and so is every script.
-/

namespace ClauseReach

open StateAlgebra

variable {σ τ ε ν α β : Type}

/-- The session for someone who does not notice the branches under way to a destination. -/
def Session.unaware (session : Session σ τ) (dest : Dest) : Session σ τ :=
  { session with pass := { session.pass with pending := session.pass.pending.forget dest } }

def Analysis.look (read : Session σ τ → α) : Analysis σ τ α := return read (← get)

section Clients

variable [StateAlgebra σ]

/-- What a client can compute. It resolves no destination but those it owns, and nothing that it does depends
on the branches under way to any other. A fault may be caught; what was done before it stays done. -/
inductive Client (owned : Dest → Prop) : {α : Type} → Analysis σ τ α → Prop where
  | pure {α : Type} (value : α) : Client owned (pure value)
  | fault {α : Type} (fault : Fault) : Client owned (throw fault : Analysis σ τ α)
  | look {α : Type} (read : Session σ τ → α)
      (blind : ∀ dest, ¬owned dest → ∀ session, read (session.unaware dest) = read session) :
      Client owned (Analysis.look read)
  | keep (change : τ → τ) : Client owned (Analysis.modifyOwn change)
  | set (state : σ) : Client owned (Analysis.setCurrent state)
  | record (dest : Dest) (state : σ) : Client owned (Analysis.record dest state)
  | resolve {dest : Dest} (own : owned dest) : Client owned (Analysis.resolve dest)
  | bind {α β : Type} {act : Analysis σ τ α} {next : α → Analysis σ τ β}
      (first : Client owned act) (rest : ∀ value, Client owned (next value)) : Client owned (act >>= next)
  | attempt {α : Type} {act : Analysis σ τ α} {rescue : Fault → Analysis σ τ α}
      (first : Client owned act) (rest : ∀ fault, Client owned (rescue fault)) :
      Client owned (tryCatch act rescue)

namespace Client

variable {owned : Dest → Prop}

theorem current : Client owned (Analysis.current : Analysis σ τ σ) :=
  .look (fun session => session.pass.state) fun _ _ _ => rfl

theorem join (state : σ) : Client owned (Analysis.join state : Analysis σ τ Unit) :=
  .bind .current fun now => .set (merge now state)

theorem branch (dest : Dest) : Client owned (Analysis.branch dest : Analysis σ τ Unit) :=
  .bind .current fun now => .record dest (clone now)

theorem resolveAll {labels : List Dest} (own : ∀ dest ∈ labels, owned dest) :
    Client owned (Analysis.resolveAll labels : Analysis σ τ Unit) := by
  induction labels with
  | nil => exact .pure ()
  | cons dest rest ih =>
    apply Client.bind (.resolve (own dest (List.mem_cons_self ..)))
    intro count
    exact ih fun other member => own other (List.mem_cons_of_mem _ member)

theorem branchAll (labels : List Dest) (seen : Bool) :
    Client owned (Switch.branchAll seen labels : Analysis σ τ Bool) := by
  induction labels generalizing seen with
  | nil => exact .pure seen
  | cons dest rest ih =>
    apply Client.bind (.branch dest)
    intro sent
    cases seen with
    | true => exact ih true
    | false =>
      cases dest with
      | none => exact .fault .absentLabel
      | some label => exact ih _

theorem runSections {sections : List (Section σ τ)}
    (own : ∀ entered ∈ sections, ∀ dest ∈ entered.labels, owned dest)
    (bodies : ∀ entered ∈ sections, Client owned entered.body) (exits : σ) :
    Client owned (Switch.runSections exits sections) := by
  induction sections generalizing exits with
  | nil => exact .pure exits
  | cons entered rest ih =>
    apply Client.bind (.set unreachable)
    intro _
    apply Client.bind (.resolveAll (own entered (List.mem_cons_self ..)))
    intro _
    apply Client.bind (bodies entered (List.mem_cons_self ..))
    intro _
    apply Client.bind .current
    intro left
    exact ih (fun other member => own other (List.mem_cons_of_mem _ member))
      (fun other member => bodies other (List.mem_cons_of_mem _ member)) _

end Client

structure Matcher.OfClient (owned : Dest → Prop) (matcher : Matcher σ τ ε ν) : Prop where
  bind : ∀ bindings label, Client owned (matcher.bind bindings label)
  split : ∀ guard, Client owned (matcher.split guard)

namespace Matcher.OfClient

variable {owned : Dest → Prop} {matcher : Matcher σ τ ε ν}

theorem enter (parts : matcher.OfClient owned) (bindings : List ν) (guard : Option ε) (label : Dest) :
    Client owned (matcher.enter bindings guard label) := by
  apply Client.bind (parts.bind bindings label)
  intro _
  cases guard with
  | none => exact .pure ()
  | some guard => exact .bind (parts.split guard) fun states => .set states.1

mutual

theorem walk (parts : matcher.OfClient owned) (known : Option Constant) (tree : Decision ε ν) :
    Client owned (tree.walk matcher known) := by
  cases tree with
  | empty => exact .pure ()
  | foreign node => exact .fault _
  | byType onNull cases otherwise =>
    apply Client.bind .current
    intro entry
    apply Client.bind (.set (clone entry))
    intro _
    apply Client.bind (parts.walk known onNull)
    intro _
    apply Client.bind (parts.walkTypes known entry cases)
    intro _
    exact .bind (.set entry) fun _ => parts.walk known otherwise
  | byValue cases otherwise =>
    apply Client.bind .current
    intro entry
    apply Client.bind (parts.walkValues known entry cases)
    intro matched
    split
    · exact .pure ()
    · exact .bind (.set entry) fun _ => parts.walk known otherwise
  | leaf bindings guard label fallback =>
    apply Client.bind .current
    intro entry
    apply Client.bind (parts.enter bindings guard label)
    intro _
    apply Client.bind .current
    intro entered
    apply Client.bind (.record label entered)
    intro _
    exact .bind (.set (clone entry)) fun _ => parts.walk known fallback
termination_by structural tree

theorem walkTypes (parts : matcher.OfClient owned) (known : Option Constant) (entry : σ)
    (trees : List (Decision ε ν)) : Client owned (Decision.walkTypes matcher known entry trees) := by
  cases trees with
  | nil => exact .pure ()
  | cons tree rest =>
    apply Client.bind (.set (clone entry))
    intro _
    exact .bind (parts.walk known tree) fun _ => parts.walkTypes known entry rest
termination_by structural trees

theorem walkValues (parts : matcher.OfClient owned) (known : Option Constant) (entry : σ)
    (cases : List (Option Constant × Decision ε ν)) :
    Client owned (Decision.walkValues matcher known entry cases) := by
  cases cases with
  | nil => exact .pure false
  | cons first rest =>
    obtain ⟨value, tree⟩ := first
    rw [Decision.walkValues]
    split
    · exact parts.walkValues known entry rest
    · apply Client.bind (.set (clone entry))
      intro _
      apply Client.bind (parts.walk known tree)
      intro _
      exact .bind (parts.walkValues known entry rest) fun _ => .pure true
termination_by structural cases

end

end Matcher.OfClient

/-- A switch of either kind. -/
inductive AnySwitch (σ τ ε ν : Type) where
  | jump (switch : JumpSwitch σ τ)
  | tree (matcher : Matcher σ τ ε ν) (switch : TreeSwitch σ τ ε ν)

namespace AnySwitch

def sections : AnySwitch σ τ ε ν → List (Section σ τ)
  | jump switch => switch.sections
  | tree _ switch => switch.sections

def brk : AnySwitch σ τ ε ν → Dest
  | jump switch => switch.brk
  | tree _ switch => switch.brk

def run : AnySwitch σ τ ε ν → Analysis σ τ Unit
  | jump switch => switch.run
  | tree matcher switch => switch.run matcher

/-- What happens before the first section is entered; the result is the state that takes no section. -/
def header : AnySwitch σ τ ε ν → Analysis σ τ σ
  | jump switch => do
    switch.scrutinee
    let passing := clone (← Analysis.current)
    match switch.target with
    | none => do
      let hasDefault ← Switch.branchAll false (switch.sections.flatMap (·.labels))
      Analysis.setUnreachable
      pure (if hasDefault then unreachable else passing)
    | some target =>
      if some target = switch.brk then do
        Analysis.setUnreachable
        pure passing
      else do
        Analysis.branch (some target)
        Analysis.setUnreachable
        pure unreachable
  | tree matcher switch => do
    switch.scrutinee
    let entry ← Analysis.current
    switch.tree.walk matcher switch.known
    if switch.fallback.isSome then Analysis.record switch.fallback (← Analysis.current)
    pure (if switch.complete then unreachable else clone entry)

theorem run_eq (switch : AnySwitch σ τ ε ν) :
    switch.run = switch.header >>= fun passing => Switch.finish passing switch.sections switch.brk := by
  cases switch with
  | jump switch =>
    simp only [run, JumpSwitch.run, header, sections, brk]
    cases switch.target with
    | none => simp only [bind_assoc, pure_bind]
    | some target =>
      by_cases past : some target = switch.brk
      · simp only [past, if_true, bind_assoc, pure_bind]
      · simp only [past, if_false, bind_assoc, pure_bind]
  | tree matcher switch =>
    simp only [run, TreeSwitch.run, header, sections, brk]
    cases switch.fallback.isSome <;> simp [bind_assoc]

/-- All that the analysis brings into the switch is a client's. -/
def OfClient (owned : Dest → Prop) : AnySwitch σ τ ε ν → Prop
  | jump switch => Client owned switch.scrutinee ∧ ∀ entered ∈ switch.sections, Client owned entered.body
  | tree matcher switch =>
    matcher.OfClient owned ∧ Client owned switch.scrutinee ∧ ∀ entered ∈ switch.sections, Client owned entered.body

namespace OfClient

variable {owned : Dest → Prop} {switch : AnySwitch σ τ ε ν}

theorem bodies (parts : switch.OfClient owned) : ∀ entered ∈ switch.sections, Client owned entered.body := by
  cases switch with
  | jump switch => exact parts.2
  | tree matcher switch => exact parts.2.2

theorem header (parts : switch.OfClient owned) : Client owned switch.header := by
  cases switch with
  | jump switch =>
    apply Client.bind parts.1
    intro _
    apply Client.bind .current
    intro entry
    cases switch.target with
    | none =>
      apply Client.bind (.branchAll _ false)
      intro hasDefault
      exact .bind (.set unreachable) fun _ => .pure _
    | some target =>
      dsimp only
      split
      · exact .bind (.set unreachable) fun _ => .pure _
      · apply Client.bind (.branch (some target))
        intro _
        exact .bind (.set unreachable) fun _ => .pure _
  | tree matcher switch =>
    apply Client.bind parts.2.1
    intro _
    apply Client.bind .current
    intro entry
    apply Client.bind (parts.1.walk switch.known switch.tree)
    intro _
    cases switch.fallback with
    | none => exact .pure _
    | some label =>
      apply Client.bind .current
      intro exhausted
      exact .bind (.record (some label) exhausted) fun _ => .pure _

/-- A switch owns its section labels and what stands behind it. -/
theorem run (parts : switch.OfClient owned)
    (own : ∀ entered ∈ switch.sections, ∀ dest ∈ entered.labels, owned dest) (behind : owned switch.brk) :
    Client owned switch.run := by
  rw [run_eq]
  apply Client.bind parts.header
  intro passing
  apply Client.bind (.runSections own parts.bodies unreachable)
  intro exits
  apply Client.bind (.set (merge passing exits))
  intro _
  exact .bind (.resolve behind) fun _ => .pure ()

end OfClient

end AnySwitch

end Clients

namespace Script

mutual

/-- The destinations that a statement resolves, at any depth. -/
def Stmt.resolves : Stmt σ → List Dest
  | .resolve dest => [dest]
  | .choose _ whenTrue whenFalse => resolvesAll whenTrue ++ resolvesAll whenFalse
  | .jumpSwitch _ sections brk _ => brk :: resolvesInside sections
  | .treeSwitch _ _ _ _ _ sections brk => brk :: resolvesInside sections
  | _ => []
termination_by structural stmt => stmt

def resolvesAll : List (Stmt σ) → List Dest
  | [] => []
  | stmt :: rest => stmt.resolves ++ resolvesAll rest
termination_by structural stmts => stmts

def resolvesInside : List (List Dest × List (Stmt σ)) → List Dest
  | [] => []
  | (labels, body) :: rest => labels ++ resolvesAll body ++ resolvesInside rest
termination_by structural sections => sections

end

variable [Domain σ] {owned : Dest → Prop}

theorem addFact_client (name : String) : Client owned (addFact name : ScriptM σ Unit) :=
  .bind .current fun now => .set (Domain.add now name)

theorem act_client (expr : Expr) : Client owned (expr.act : ScriptM σ Unit) := by
  unfold Expr.act
  split
  · exact .pure ()
  · exact addFact_client _
  · exact .set _

theorem eval_client (expr : Expr) : Client owned (expr.eval : ScriptM σ Unit) :=
  .bind (.keep _) fun _ => act_client expr

theorem scrutinee_client (scrutinee : Option Expr) : Client owned (evalScrutinee scrutinee : ScriptM σ Unit) := by
  cases scrutinee with
  | none => exact .pure ()
  | some expr => exact eval_client expr

theorem split_client (expr : Expr) : Client owned (expr.split : ScriptM σ (σ × σ)) := by
  apply Client.bind (.keep _)
  intro _
  apply Client.bind (act_client expr)
  intro _
  apply Client.bind .current
  intro state
  split
  · exact .pure _
  · split <;> exact .pure _

theorem addFacts_client (names : List String) :
    Client owned (names.forM fun name => (addFact s!"bind:{name}" : ScriptM σ Unit)) := by
  induction names with
  | nil => exact .pure ()
  | cons name rest ih => exact .bind (addFact_client _) fun _ => ih

theorem matcher_client (hooks : Hooks) :
    (matcher hooks : Matcher σ (List (Event σ)) Expr String).OfClient owned := by
  refine ⟨fun names dest => ?_, split_client⟩
  change Client owned (bindNames hooks names dest)
  unfold bindNames
  split
  · exact .bind (addFacts_client names) fun _ => .keep _
  · exact .pure ()

theorem observeEntry_client (hooks : Hooks) (labels : List Dest) :
    Client owned (observeEntry hooks labels : ScriptM σ Unit) := by
  unfold observeEntry
  split
  · exact .bind .current fun _ => .keep _
  · exact .pure ()

mutual

/-- A script is a client that owns what it resolves. -/
theorem Stmt.run_client (hooks : Hooks) (stmt : Stmt σ) (own : ∀ dest ∈ stmt.resolves, owned dest) :
    Client owned (stmt.run hooks) := by
  cases stmt with
  | fact name => exact addFact_client name
  | leave => exact .set unreachable
  | jump dest => exact .bind (.branch dest) fun _ => .set unreachable
  | branch dest => exact .branch dest
  | record dest state => exact .record dest state
  | resolve dest => exact .bind (.resolve (own dest (List.mem_singleton_self dest))) fun _ => .keep _
  | set state => exact .set state
  | join state => exact .join state
  | eval expr => exact eval_client expr
  | choose condition whenTrue whenFalse =>
    apply Client.bind (split_client condition)
    intro states
    apply Client.bind (.set states.1)
    intro _
    apply Client.bind (runAll_client hooks whenTrue fun dest member => own dest (List.mem_append_left _ member))
    intro _
    apply Client.bind .current
    intro kept
    apply Client.bind (.set states.2)
    intro _
    apply Client.bind (runAll_client hooks whenFalse fun dest member => own dest (List.mem_append_right _ member))
    intro _
    exact .join kept
  | jumpSwitch scrutinee sections brk target =>
    have inside := prepare_client hooks sections fun dest member => own dest (List.mem_cons_of_mem _ member)
    have parts : (AnySwitch.jump ⟨evalScrutinee scrutinee, prepare hooks sections, brk, target⟩ :
        AnySwitch σ (List (Event σ)) Expr String).OfClient owned :=
      ⟨scrutinee_client scrutinee, fun entered member => (inside entered member).2⟩
    exact parts.run (fun entered member => (inside entered member).1) (own brk (List.mem_cons_self ..))
  | treeSwitch scrutinee known tree fallback complete sections brk =>
    have inside := prepare_client hooks sections fun dest member => own dest (List.mem_cons_of_mem _ member)
    have parts : (AnySwitch.tree (matcher hooks)
        ⟨evalScrutinee scrutinee, known, tree, fallback, complete, prepare hooks sections, brk⟩).OfClient owned :=
      ⟨matcher_client hooks, scrutinee_client scrutinee, fun entered member => (inside entered member).2⟩
    exact parts.run (fun entered member => (inside entered member).1) (own brk (List.mem_cons_self ..))
termination_by structural stmt

theorem runAll_client (hooks : Hooks) (stmts : List (Stmt σ)) (own : ∀ dest ∈ resolvesAll stmts, owned dest) :
    Client owned (runAll hooks stmts) := by
  cases stmts with
  | nil => exact .pure ()
  | cons stmt rest =>
    apply Client.bind (stmt.run_client hooks fun dest member => own dest (List.mem_append_left _ member))
    intro _
    exact runAll_client hooks rest fun dest member => own dest (List.mem_append_right _ member)
termination_by structural stmts

theorem prepare_client (hooks : Hooks) (sections : List (List Dest × List (Stmt σ)))
    (own : ∀ dest ∈ resolvesInside sections, owned dest) :
    ∀ entered ∈ prepare hooks sections,
      (∀ dest ∈ entered.labels, owned dest) ∧ Client owned entered.body := by
  cases sections with
  | nil =>
    intro entered member
    cases member
  | cons first rest =>
    obtain ⟨labels, body⟩ := first
    have ownInside (dest : Dest) (member : dest ∈ labels ++ resolvesAll body) : owned dest :=
      own dest (List.mem_append_left _ member)
    intro entered member
    rcases List.mem_cons.mp member with rfl | later
    · refine ⟨fun dest member => ownInside dest (List.mem_append_left _ member), ?_⟩
      apply Client.bind (observeEntry_client hooks labels)
      intro _
      exact runAll_client hooks body fun dest member => ownInside dest (List.mem_append_right _ member)
    · exact prepare_client hooks rest (fun dest member => own dest (List.mem_append_right _ member)) entered later
termination_by structural sections

end

end Script

end ClauseReach
