import TxHarbor.Transition.Run

open Transition Option

namespace TxHarbor.Recovery

/-! The guard of one restore target, the attempts that write to the target, and who reads the guard. -/

inductive Disposition where
  | unknown | clean | rebuildRequired
  deriving DecidableEq

/-- `recovery_target_guard`. Of a time stamp and of the evidence only whether it is set. -/
structure TargetGuard where
  disposition : Disposition
  activeWriter : Bool
  launchIntent : Bool
  attemptAppName : Option String
  operationID : String
  launchedAt : Bool
  rebuildRequiredAt : Bool
  cleanAt : Bool
  rebuildEvidence : Bool
  deriving DecidableEq

/-- The transitions of the row. An attempt goes by its operation id and its application name. -/
inductive GuardStep where
  | prepare (expectedOperation expectedApp operation : String)
  | launchIntent (operation app : String)
  | launched (operation app : String)
  | drained (operation app : String)
  | rebuildRequired (operation app : String)
  | acceptClean (operation app : String)
  | resolveClean (operation : String)

namespace TargetGuard

/-- The row of `provisionOpenTargetGuard`, which `PrepareTargetGuardForAttempt` also writes. -/
def unlaunched (operation : String) : TargetGuard :=
  ⟨.unknown, false, false, none, operation, false, false, false, false⟩

/-- The part that the statements of one attempt share. -/
def awaits (g : TargetGuard) (operation app : String) : Bool :=
  g.operationID = operation && g.attemptAppName = some app && g.disposition = .unknown && g.launchIntent

/-- One UPDATE; `none` when it matches no row or fails a CHECK of the table. -/
def apply (g : TargetGuard) : GuardStep → Option TargetGuard
  | .prepare expectedOperation expectedApp operation =>
    if g.operationID = expectedOperation && g.attemptAppName.getD "" = expectedApp && g.disposition = .clean &&
        !g.activeWriter then
      some (unlaunched operation)
    else none
  | .launchIntent operation app =>
    -- of an unlaunched row only the evidence is not asked for
    if { g with rebuildEvidence := false } = unlaunched operation then
      some { g with launchIntent := true, activeWriter := true, attemptAppName := some app }
    else none
  | .launched operation app =>
    if g.awaits operation app && g.activeWriter && !g.launchedAt then some { g with launchedAt := true } else none
  | .drained operation app =>
    if g.awaits operation app && g.activeWriter then some { g with activeWriter := false } else none
  | .rebuildRequired operation app =>
    -- `recovery_target_guard_writer_check`
    if g.awaits operation app && !g.activeWriter then
      some { g with disposition := .rebuildRequired, rebuildRequiredAt := true, rebuildEvidence := false }
    else none
  | .acceptClean operation app =>
    if g.awaits operation app && g.launchedAt && !g.activeWriter then
      some { g with disposition := .clean, cleanAt := true, rebuildEvidence := true }
    else none
  | .resolveClean operation =>
    if g.disposition ≠ .clean && !g.activeWriter then
      some { g with
        disposition := .clean, rebuildRequiredAt := false, cleanAt := true, rebuildEvidence := true
        operationID := operation }
    else none

/-- `targetGuardConsistent`, with clean allowed. -/
def consistent (g : TargetGuard) : Bool :=
  g.launchIntent = g.attemptAppName.isSome && !(g.activeWriter && (g.disposition ≠ .unknown || !g.launchIntent)) &&
    match g.disposition with
    | .unknown => !g.activeWriter && !g.launchIntent && !g.launchedAt && !g.rebuildRequiredAt && !g.cleanAt &&
        !g.rebuildEvidence
    | .clean => !g.activeWriter && g.cleanAt && !g.rebuildRequiredAt && g.rebuildEvidence
    | .rebuildRequired => false

/-- What the gate asks for. -/
def resolved (g : TargetGuard) : Bool := g.disposition = .clean && !g.activeWriter

end TargetGuard

/-- `recovery_instance`; `bound`: to this target. -/
structure Instance where
  recovery : Bool
  live : Bool
  bound : Bool

/-- The guard of the target, and every instance. -/
structure Control where
  guard : Option TargetGuard
  instances : List Instance

/-- `released` and `approved` are the other conditions of a close and of a supersede: the release of every
capability, and the two approvals. Neither reads the guard. -/
inductive ControlAction where
  | guard (step : GuardStep)
  | openInstance (recovery bound : Bool) (operation : String)
  | close (released : Bool)
  | supersede (approved : Bool)

namespace Control

def current (c : Control) : Option Instance := c.instances.find? (·.live)

/-- `RequireInstanceTargetBinding`, of an instance on this target. -/
def requireTargetBinding (c : Control) (i : Instance) : Bool := !i.bound || c.guard.any (·.consistent)

def closed (c : Control) : List Instance := c.instances.map fun i => { i with live := false }

/-- A transaction that is refused leaves nothing. -/
def step? (c : Control) : ControlAction → Option Control
  | .guard step => (c.guard.bind (·.apply step)).map fun g => { c with guard := some g }
  | .openInstance recovery bound operation =>
    let guard := if bound then some (c.guard.getD (.unlaunched operation)) else c.guard
    -- `recovery_instance_one_open_uniq`, then `validateOpenTargetGuard`
    if c.current.isNone && (!bound || guard.any (·.consistent)) then
      some ⟨guard, c.instances ++ [⟨recovery, true, bound⟩]⟩
    else none
  | .close released =>
    match c.current with
    | some i =>
      if c.requireTargetBinding i && (!i.recovery || released) then some { c with instances := c.closed } else none
    | none => none
  | .supersede approved =>
    match c.current with
    | some i =>
      if c.requireTargetBinding i && i.recovery && approved then
        some { c with instances := c.closed ++ [⟨true, true, i.bound⟩] }
      else none
    | none => none

def next (c : Control) (a : ControlAction) : Control := (c.step? a).getD c

def initial : Control := ⟨none, []⟩

/-- `admitBound`; `evaluated` is the verdict of `evaluateLocked`. -/
def admitBound (c : Control) (i : Instance) (evaluated : Bool) : Bool :=
  i.live && i.recovery && (!i.bound || c.guard.any (·.resolved)) && evaluated

/-- `unresolvedRecoveryTargetGuard`, of a gate that trusts this target. -/
def unresolved (c : Control) : Bool := c.instances.any (fun i => i.recovery && i.bound) && !c.guard.any (·.resolved)

def admitUnbound (c : Control) : Bool := !c.current.any (·.recovery) && !c.unresolved

/-- Only a committed guard step, or the first open, writes the guard. -/
theorem next_guard (c : Control) (a : ControlAction) : (c.next a).guard = c.guard ∨
    (∃ g g' step, a = .guard step ∧ c.guard = some g ∧ g.apply step = some g' ∧ (c.next a).guard = some g') ∨
      c.guard = none := by
  cases a with
  | guard step =>
    cases hg : c.guard with
    | none => exact .inr (.inr rfl)
    | some g =>
      cases happly : g.apply step with
      | none => exact .inl (by simp [next, step?, hg, happly])
      | some g' => exact .inr (.inl ⟨g, g', step, rfl, rfl, happly, by simp [next, step?, hg, happly]⟩)
  | openInstance recovery bound operation =>
    cases hg : c.guard with
    | none => exact .inr (.inr rfl)
    | some g =>
      left
      simp only [next, step?, hg]
      cases bound <;> simp <;> split <;> simp [hg]
  | close released | supersede approved =>
    left
    simp only [next, step?]
    split
    · split <;> rfl
    · rfl

end Control

/-- Launched by the attempt, and neither accepted nor rebuilt since. -/
structure TargetGuard.Half (operation app : String) (g : TargetGuard) : Prop where
  operation : g.operationID = operation
  app : g.attemptAppName = some app
  intent : g.launchIntent = true
  unclean : g.disposition ≠ .clean

/-- The step belongs to another attempt. -/
def GuardStep.foreign (operation : String) : GuardStep → Prop
  | .prepare .. => True
  | .launchIntent other _ | .launched other _ | .drained other _ | .rebuildRequired other _ | .acceptClean other _ =>
    other ≠ operation
  | .resolveClean _ => False

open TargetGuard Option

namespace TargetGuard

variable {g g' : TargetGuard} {operation app : String} {step : GuardStep}

theorem apply_launchIntent (happly : g.apply (.launchIntent operation app) = some g') :
    g.operationID = operation ∧ g.disposition = .unknown ∧ g.launchIntent = false ∧
      g' = { g with launchIntent := true, activeWriter := true, attemptAppName := some app } := by
  simp only [apply, ite_none_right_eq_some, some.injEq] at happly
  obtain ⟨hsame, rfl⟩ := happly
  exact ⟨congrArg operationID hsame, congrArg disposition hsame, congrArg launchIntent hsame, rfl⟩

/-- A half-restored target stays one, its writer active until it is drained, unless the attempt itself is
accepted or the target is rebuilt. -/
theorem Half.apply (h : g.Half operation app) (happly : g.apply step = some g') :
    ¬ step.foreign operation ∧ (step ≠ .acceptClean operation app → (∀ o, step ≠ .resolveClean o) →
      g'.Half operation app ∧ (g'.activeWriter = g.activeWriter ∨ step = .drained operation app)) := by
  obtain ⟨hoperation, happ, hintent, hunclean⟩ := h
  cases step with
  | prepare e a o => simp [apply, hunclean] at happly
  | launchIntent o a =>
    rw [(apply_launchIntent happly).2.2.1] at hintent
    cases hintent
  | resolveClean o => exact ⟨id, fun _ hne => absurd rfl (hne o)⟩
  | launched o a | drained o a | rebuildRequired o a | acceptClean o a =>
    simp only [apply, awaits, Bool.and_eq_true, decide_eq_true_eq, ite_none_right_eq_some,
      some.injEq, happ, hoperation] at happly
    obtain ⟨hguard, rfl⟩ := happly
    refine ⟨fun hother => hother (by grind), fun hne _ => ⟨⟨rfl, rfl, hintent, ?_⟩, ?_⟩⟩ <;> grind

theorem Half.not_resolved (h : g.Half operation app) : g.resolved = false ∧ g.consistent = false := by
  obtain ⟨-, happ, hintent, hunclean⟩ := h
  cases hdisposition : g.disposition <;> simp_all [resolved, consistent]

/-- A resolved guard waits for the next attempt. -/
theorem apply_resolved (h : g.resolved = true) (happly : g.apply step = some g') :
    ∃ expected expectedApp operation, step = .prepare expected expectedApp operation := by
  simp only [resolved, Bool.and_eq_true, decide_eq_true_eq] at h
  cases step with
  | prepare e a o => exact ⟨e, a, o, rfl⟩
  | launchIntent o a =>
    rw [(apply_launchIntent happly).2.1] at h
    cases h.1
  | launched | drained | rebuildRequired | acceptClean | resolveClean =>
    simp [apply, awaits, h.1] at happly

end TargetGuard

namespace Control

variable {c c' : Control} {operation app : String}

/-- The step ends the attempt: it is accepted, or the target is rebuilt. -/
def Settles (operation app : String) (c : Control) (a : ControlAction) : Prop :=
  (a = .guard (.acceptClean operation app) ∨ ∃ o, a = .guard (.resolveClean o)) ∧ (c.step? a).isSome

def Half (operation app : String) (c : Control) : Prop := ∃ g, c.guard = some g ∧ g.Half operation app

theorem Half.next (h : c.Half operation app) (a : ControlAction) (ha : ¬ c.Settles operation app a) :
    (c.next a).Half operation app ∧ ((c.next a).guard.all (·.activeWriter) = c.guard.all (·.activeWriter) ∨
      a = .guard (.drained operation app)) := by
  obtain ⟨g, hg, hhalf⟩ := h
  obtain hsame | ⟨_, g', step, rfl, hg', happly, hnext⟩ | hnone := c.next_guard a
  · exact ⟨⟨g, hsame.trans hg, hhalf⟩, .inl (by rw [hsame])⟩
  · obtain rfl := some.inj (hg.symm.trans hg')
    have hsome : (c.step? (.guard step)).isSome := by simp [step?, hg, happly]
    obtain ⟨hhalf', hwriter⟩ := (hhalf.apply happly).2 (fun h => ha ⟨.inl (h ▸ rfl), hsome⟩)
      fun o h => ha ⟨.inr ⟨o, h ▸ rfl⟩, hsome⟩
    exact ⟨⟨g', hnext, hhalf'⟩, hwriter.imp (fun h => by simp [hnext, hg, h]) (congrArg _)⟩
  · cases hnone.symm.trans hg

end Control

open Control

/-- From the commit of a launch intent on, along every run without the acceptance of that attempt and without a
rebuild. -/
theorem half_restored_never_served (operation app : String) (c : Control) {c₁ : Control} (later : List ControlAction)
    (hintent : c.step? (.guard (.launchIntent operation app)) = some c₁)
    (hlater : Along next (fun c a => ¬ c.Settles operation app a) c₁ later) :
    let c' := run next c₁ later
    (∃ g, c'.guard = some g ∧ g.disposition ≠ .clean) ∧
    (∀ step, step.foreign operation → c'.step? (.guard step) = none) ∧
    (∀ recovery o, c'.step? (.openInstance recovery true o) = none) ∧
    (∀ i, c'.current = some i → i.bound = true → ∀ ok, c'.step? (.close ok) = none ∧ c'.step? (.supersede ok) = none) ∧
    (∀ i evaluated, i.bound = true → c'.admitBound i evaluated = false) ∧
    (c'.instances.any (fun i => i.recovery && i.bound) = true → c'.admitUnbound = false) ∧
    (.guard (.drained operation app) ∉ later → c'.step? (.guard (.acceptClean operation app)) = none) := by
  intro c'
  have hinit : c₁.Half operation app ∧ c₁.guard.all (·.activeWriter) = true := by
    simp only [step?, map_eq_some_iff, bind_eq_some_iff] at hintent
    obtain ⟨_, ⟨g, -, happly⟩, rfl⟩ := hintent
    obtain ⟨hoperation, hunknown, -, rfl⟩ := apply_launchIntent happly
    exact ⟨⟨_, rfl, hoperation, rfl, rfl, by rw [hunknown]; nofun⟩, rfl⟩
  obtain ⟨g, hg, hhalf⟩ := invariant_of_along hlater hinit.1 fun c a ha h => (h.next a ha).1
  obtain ⟨hunresolved, hinconsistent⟩ := hhalf.not_resolved
  change c'.guard = some g at hg
  refine ⟨⟨g, hg, hhalf.unclean⟩, fun step hforeign => ?_, fun recovery o => ?_, fun i hi hbound ok => ?_,
    fun i evaluated hbound => ?_, fun hany => ?_, fun hdrained => ?_⟩
  · cases happly : g.apply step with
    | none => simp [step?, hg, happly]
    | some g' => exact absurd hforeign (hhalf.apply happly).1
  · simp [step?, hg, hinconsistent]
  · simp [step?, hi, requireTargetBinding, hbound, hg, hinconsistent]
  · simp [admitBound, hbound, hg, hunresolved]
  · simp [admitUnbound, unresolved, hany, hg, hunresolved]
  · -- the writer is active until its drain is recorded
    have hactive := invariant_of_along (I := fun c => c.Half operation app ∧ c.guard.all (·.activeWriter) = true)
      (hlater.and_mem (Q := (· ≠ .guard (.drained operation app))) fun a ha h => hdrained (h ▸ ha)) hinit
      fun c a ha h => by
        obtain ⟨hnext, hwriter⟩ := h.1.next a ha.1
        exact ⟨hnext, (hwriter.resolve_right ha.2).trans h.2⟩
    have hactive : c'.guard.all (·.activeWriter) = true := hactive.2
    simp only [hg, all_some] at hactive
    simp [step?, hg, apply, hactive]

/-- A target that was rebuilt after its instance was opened. -/
def rebuilt : Control := run next initial [.openInstance true true "op-1", .guard (.resolveClean "op-2")]

def prepared : Control := rebuilt.next (.guard (.prepare "op-2" "" "op-3"))

/-- The writer of the attempt is drained, and a close is tried. -/
theorem half_restored_never_served_launched :
    (run next (prepared.next (.guard (.launchIntent "op-3" "app")))
      [.guard (.drained "op-3" "app"), .close true]).admitUnbound = false := by
  have hlater : Along next (fun c a => ¬ c.Settles "op-3" "app" a) (prepared.next (.guard (.launchIntent "op-3" "app")))
      [.guard (.drained "op-3" "app"), .close true] := by
    refine ⟨?_, ?_, trivial⟩ <;> rintro ⟨hact | ⟨o, hact⟩, -⟩ <;> cases hact
  exact (half_restored_never_served "op-3" "app" prepared _ rfl hlater).2.2.2.2.2.1 (by decide +kernel)

/-- A close that finds the guard past its first, unresolved state finds it clean, and until another attempt is
prepared no unbound admission is refused for it. -/
theorem closed_recovery_ends {i : Instance} (c c' : Control) (later : List ControlAction)
    (hcurrent : c.current = some i) (hbound : i.bound = true) (hclose : c.step? (.close true) = some c')
    (hresolved : ∀ g, c.guard = some g → g.disposition ≠ .unknown)
    (hlater : ∀ a ∈ later, ∀ e x o, a ≠ .guard (.prepare e x o)) :
    c'.guard.any (·.resolved) = true ∧ (run next c' later).unresolved = false := by
  have hguard : c'.guard.any (·.resolved) = true := by
    simp only [step?, hcurrent, requireTargetBinding, hbound, ite_none_right_eq_some, some.injEq] at hclose
    obtain ⟨hconsistent, rfl⟩ := hclose
    cases hg : c.guard with
    | none => simp [hg] at hconsistent
    | some g =>
      have hknown := hresolved g hg
      cases hdisposition : g.disposition <;> simp_all [consistent, resolved]
  have hrun : (run next c' later).guard.any (·.resolved) = true :=
    invariant_of_along (I := fun c => c.guard.any (·.resolved) = true) (along_of_mem hlater c') hguard fun c a ha h => by
      obtain hsame | ⟨g, g', step, rfl, hg, happly, -⟩ | hnone := c.next_guard a
      · rwa [hsame]
      · obtain ⟨e, x, o, rfl⟩ := apply_resolved (by simpa [hg] using h) happly
        exact absurd rfl (ha e x o)
      · simp [hnone] at h
  exact ⟨hguard, by simp [unresolved, hrun]⟩

/-- The next recovery opens a bound instance and supersedes it. -/
theorem closed_recovery_ends_rebuilt :
    (rebuilt.next (.close true)).guard.any (·.resolved) = true ∧
      (run next (rebuilt.next (.close true)) [.openInstance true true "op-4", .supersede true]).unresolved = false :=
  closed_recovery_ends rebuilt _ _ rfl rfl rfl (by rintro _ ⟨⟩; decide) (by simp)

/-- Opened on a new target and closed: the guard was never resolved, and every unbound admission is refused. -/
theorem unresolved_target_closes :
    let c := run next initial [.openInstance true true "op-1"]
    (c.step? (.close true)).isSome = true ∧ (c.next (.close true)).guard = some (.unlaunched "op-1") ∧
      (c.next (.close true)).admitUnbound = false := by
  decide +kernel

end TxHarbor.Recovery
