import Mathlib.Algebra.GroupWithZero.Nat
import Mathlib.Data.List.Perm.Subperm
import Mathlib.Data.List.Induction
import Apple2ix.Prefs.Sync

/-! Which listeners a call of `prefs_sync` reaches when calls overlap. -/
namespace Apple2ix.Prefs
open Runs
set_option autoImplicit false

/-! ## The registered listeners -/

/-- `listener` stands in the list of a domain named `d`. -/
def Listens (doms : List Domain) (d : List UInt8) (listener : ℕ) : Prop :=
  ∃ dom ∈ doms, dom.domain = d ∧ listener ∈ dom.listeners

/-- The list of domains holds exactly what was registered, each domain once. -/
structure RegistryOk (registrations : List (List UInt8 × ℕ)) (registry : Registry) : Prop where
  names : (registry.domains.map Domain.domain).Nodup
  listens : ∀ d l, Listens registry.domains d l ↔ (d, l) ∈ registrations
  count : registry.listenerCount = registrations.length

@[simp] theorem listens_cons (dom : Domain) (doms : List Domain) (d : List UInt8) (l : ℕ) :
    Listens (dom :: doms) d l ↔ dom.domain = d ∧ l ∈ dom.listeners ∨ Listens doms d l := by
  simp [Listens]

theorem addListener_none {d : List UInt8} {l : ℕ} {doms : List Domain}
    (h : addListener d l doms = none) : d ∉ doms.map Domain.domain := by
  induction doms with
  | nil => simp
  | cons dom doms ih =>
    unfold addListener at h
    split at h
    · cases h
    · rw [Option.map_eq_none_iff] at h
      simp_all

theorem addListener_some {d : List UInt8} {l : ℕ} {doms doms' : List Domain}
    (h : addListener d l doms = some doms') :
    doms'.map Domain.domain = doms.map Domain.domain ∧
      ∀ e m, Listens doms' e m ↔ Listens doms e m ∨ e = d ∧ m = l := by
  induction doms generalizing doms' with
  | nil => cases h
  | cons dom doms ih =>
    unfold addListener at h
    split at h
    next heq =>
      cases h
      refine ⟨rfl, fun e m => ?_⟩
      simp only [listens_cons, List.mem_cons, heq]
      grind
    next hne =>
      obtain ⟨rest, hrest, rfl⟩ := Option.map_eq_some_iff.mp h
      obtain ⟨hnames, hlistens⟩ := ih hrest
      refine ⟨by simp [hnames], fun e m => ?_⟩
      rw [listens_cons, listens_cons, hlistens, or_assoc]

theorem registerAll_ok (registrations : List (List UInt8 × ℕ)) :
    RegistryOk registrations (registerAll registrations) := by
  induction registrations using List.reverseRecOn with
  | nil => exact ⟨List.nodup_nil, by simp [registerAll, Listens], rfl⟩
  | append_singleton registrations r ih =>
    obtain ⟨d, l⟩ := r
    have hlast : registerAll (registrations ++ [(d, l)]) =
        prefsRegisterListener (registerAll registrations) d l := by
      simp [registerAll]
    rw [hlast]
    unfold prefsRegisterListener
    cases hadd : addListener d l (registerAll registrations).domains with
    | none =>
      refine ⟨?_, fun e m => ?_, ?_⟩
      · exact List.nodup_cons.mpr ⟨addListener_none hadd, ih.names⟩
      · simp only [Option.getD_none, listens_cons, ih.listens, List.mem_append,
          List.mem_singleton, Prod.mk.injEq]
        grind
      · simp [ih.count]
    | some doms =>
      obtain ⟨hnames, hlistens⟩ := addListener_some hadd
      refine ⟨?_, fun e m => ?_, ?_⟩
      · simpa [hnames] using ih.names
      · simp only [Option.getD_some, hlistens, ih.listens, List.mem_append, List.mem_singleton,
          Prod.mk.injEq]
      · simp [ih.count]

@[simp] theorem walked_nil (domain : Option (List UInt8)) : walked domain [] = [] := by
  cases domain <;> rfl

theorem walked_all (dom : Domain) (doms : List Domain) :
    walked none (dom :: doms) = dom.listeners ++ walked none doms := by
  simp [walked]

theorem walked_self (dom : Domain) (doms : List Domain) :
    walked (some dom.domain) (dom :: doms) = dom.listeners := by
  simp [walked]

theorem walked_other {d : List UInt8} {dom : Domain} (doms : List Domain) (hd : d ≠ dom.domain) :
    walked (some d) (dom :: doms) = walked (some d) doms := by
  simp [walked, hd]

theorem mem_walked {doms : List Domain} (hnames : (doms.map Domain.domain).Nodup)
    (domain : Option (List UInt8)) (l : ℕ) :
    l ∈ walked domain doms ↔ ∃ d, Listens doms d l ∧ ∀ e ∈ domain, d = e := by
  cases domain with
  | none => simp [walked, Listens]
  | some e =>
    induction doms with
    | nil => simp [Listens]
    | cons dom doms ih =>
      obtain ⟨hfresh, hrest⟩ := List.nodup_cons.mp hnames
      by_cases he : e = dom.domain
      · subst he
        have hnone : ¬ Listens doms dom.domain l := by
          rintro ⟨dom', hmem, hname, -⟩
          exact hfresh (hname ▸ List.mem_map_of_mem hmem)
        rw [walked_self]
        simp [hnone]
      · rw [walked_other doms he, ih hrest]
        simp [Ne.symm he]

theorem mem_walked_registry {registrations : List (List UInt8 × ℕ)} {registry : Registry}
    (h : RegistryOk registrations registry) (domain : Option (List UInt8)) (l : ℕ) :
    l ∈ walked domain registry.domains ↔ Requested registrations domain l := by
  rw [mem_walked h.names]
  simp only [h.listens, Requested]
  constructor
  · rintro ⟨d, hmem, hd⟩
    exact ⟨(d, l), hmem, rfl, hd⟩
  · rintro ⟨⟨d, m⟩, hmem, rfl, hd⟩
    exact ⟨d, hmem, hd⟩

/-! ## One step -/

/-- What holds of the running call: it came across registered listeners only, it invokes none of
them twice, and what `dom` points at behind the loop holds no listener that it did not invoke. -/
structure PassOk (registrations : List (List UInt8 × ℕ)) (p : Pass) : Prop where
  nodup : p.alreadySynced.Nodup
  synced : ∀ l ∈ p.alreadySynced, l ∈ registrations.map Prod.snd
  known : ∀ l ∈ p.ahead, l ∈ registrations.map Prod.snd
  inside : ∀ dom doms rest, p.point = .listeners dom doms rest → p.domain.isSome →
    p.domain = some dom.domain ∧ ∀ l ∈ dom.listeners, l ∈ rest ∨ l ∈ p.alreadySynced
  behind : ∀ doms, p.point = .passDone doms → ∀ l ∈ walked p.domain doms, l ∈ p.alreadySynced

/-- What holds in every state: the counter is zero exactly when no call is running. -/
def SyncOk (registrations : List (List UInt8 × ℕ)) (s : Sync) : Prop :=
  match s.active with
  | none => s.syncCount = 0
  | some p => 0 < s.syncCount ∧ PassOk registrations p

/-- The listeners that are yet to be invoked. -/
def Sync.pending (s : Sync) : List ℕ := (s.active.map Pass.pending).getD []

/-- The steps left in the pass, up to the lock. -/
def Point.work : Point → ℕ
  | .domains doms => (doms.map fun dom => dom.listeners.length + 2).sum + 2
  | .listeners _ doms rest =>
    rest.length + 1 + ((doms.map fun dom => dom.listeners.length + 2).sum + 2)
  | .passDone _ => 1

def Sync.work (s : Sync) : ℕ := (s.active.map fun p => p.point.work).getD 0

section Steps
variable {registrations : List (List UInt8 × ℕ)} {registry : Registry} {s : Sync} {p : Pass}

theorem mem_pending {l : ℕ} : l ∈ p.pending ↔ l ∈ p.ahead ∧ l ∉ p.alreadySynced := by
  simp [Pass.pending]

/-- What a step of the running call does: it invokes a pending listener or leaves the pending ones
as they are, its `assert` holds, and there is less to do than before. -/
def StepOk (registrations : List (List UInt8 × ℕ)) (registry : Registry) (s : Sync) (p : Pass) :
    Prop :=
  ∃ t invoked, passStep registry s p = .ok (t, invoked) ∧ SyncOk registrations t ∧
    (∀ l, l ∈ p.pending ↔ l ∈ invoked ∨ l ∈ t.pending) ∧
    (t.syncCount < s.syncCount ∨ t.syncCount = s.syncCount ∧ t.work < p.point.work)

variable {domain : Option (List UInt8)} {synced : List ℕ}

theorem domains_step {doms : List Domain} (hs : 0 < s.syncCount)
    (h : PassOk registrations ⟨domain, synced, .domains doms⟩) :
    StepOk registrations registry s ⟨domain, synced, .domains doms⟩ := by
  obtain ⟨hnodup, hsynced, hknown, -, -⟩ := h
  cases doms with
  | nil =>
    refine ⟨_, none, rfl, ⟨hs, hnodup, hsynced, by simp [Pass.ahead], nofun, ?_⟩, ?_, ?_⟩
    · rintro doms heq l hl
      cases heq
      simp at hl
    · simp [Sync.pending, mem_pending, Pass.ahead]
    · exact Or.inr ⟨rfl, by simp [Sync.work, Point.work]⟩
  | cons dom doms =>
    cases domain with
    | none =>
      refine ⟨_, none, rfl, ⟨hs, hnodup, hsynced, ?_, nofun, nofun⟩, ?_, ?_⟩
      · simpa [Pass.ahead, walked_all] using hknown
      · simp [Sync.pending, mem_pending, Pass.ahead, walked_all]
      · refine Or.inr ⟨rfl, ?_⟩
        simp only [Sync.work, Point.work, Option.map_some, Option.getD_some, List.map_cons,
          List.sum_cons]
        omega
    | some d =>
      by_cases hd : d = dom.domain
      · subst hd
        refine ⟨{ s with active := some ⟨some dom.domain, synced,
          .listeners dom doms dom.listeners⟩ }, none, ?_,
          ⟨hs, hnodup, hsynced, ?_, ?_, nofun⟩, ?_, ?_⟩
        · simp [passStep]
        · simpa [Pass.ahead, walked_self] using hknown
        · rintro dom' doms' rest heq -
          cases heq
          exact ⟨rfl, fun l hl => Or.inl hl⟩
        · simp [Sync.pending, mem_pending, Pass.ahead, walked_self]
        · refine Or.inr ⟨rfl, ?_⟩
          simp only [Sync.work, Point.work, Option.map_some, Option.getD_some, List.map_cons,
            List.sum_cons]
          omega
      · refine ⟨{ s with active := some ⟨some d, synced, .domains doms⟩ }, none, ?_,
          ⟨hs, hnodup, hsynced, ?_, nofun, nofun⟩, ?_, ?_⟩
        · simp [passStep, hd]
        · simpa [Pass.ahead, walked_other doms hd] using hknown
        · simp [Sync.pending, mem_pending, Pass.ahead, walked_other doms hd]
        · refine Or.inr ⟨rfl, ?_⟩
          simp only [Sync.work, Point.work, Option.map_some, Option.getD_some, List.map_cons,
            List.sum_cons]
          omega

theorem listeners_step {dom : Domain} {doms : List Domain} {rest : List ℕ}
    (hreg : RegistryOk registrations registry) (hs : 0 < s.syncCount)
    (h : PassOk registrations ⟨domain, synced, .listeners dom doms rest⟩) :
    StepOk registrations registry s ⟨domain, synced, .listeners dom doms rest⟩ := by
  obtain ⟨hnodup, hsynced, hknown, hinside, -⟩ := h
  cases rest with
  | nil =>
    cases domain with
    | none =>
      refine ⟨_, none, rfl, ⟨hs, hnodup, hsynced, hknown, nofun, nofun⟩, ?_, ?_⟩
      · simp [Sync.pending, mem_pending, Pass.ahead]
      · refine Or.inr ⟨rfl, ?_⟩
        simp only [Sync.work, Point.work, Option.map_some, Option.getD_some, List.length_nil]
        omega
    | some d =>
      refine ⟨_, none, rfl, ⟨hs, hnodup, hsynced, by simp [Pass.ahead], nofun, ?_⟩, ?_, ?_⟩
      · rintro doms' heq l hl
        cases heq
        obtain ⟨hd, hall⟩ := hinside dom doms [] rfl rfl
        cases hd
        rw [walked_self] at hl
        simpa using hall l hl
      · simp [Sync.pending, mem_pending, Pass.ahead]
      · refine Or.inr ⟨rfl, ?_⟩
        simp only [Sync.work, Point.work, Option.map_some, Option.getD_some, List.length_nil]
        omega
  | cons listener rest =>
    have hwork : (Point.listeners dom doms rest).work <
        (Point.listeners dom doms (listener :: rest)).work := by
      simp only [Point.work, List.length_cons]
      omega
    have hrest : ∀ l ∈ (Pass.mk domain synced (.listeners dom doms rest)).ahead,
        l ∈ registrations.map Prod.snd := fun l hl => hknown l (List.mem_cons_of_mem _ hl)
    by_cases hfound : listener ∈ synced
    · refine ⟨{ s with active := some ⟨domain, synced, .listeners dom doms rest⟩ }, none, ?_,
        ⟨hs, hnodup, hsynced, hrest, ?_, nofun⟩, ?_, Or.inr ⟨rfl, hwork⟩⟩
      · simp [passStep, hfound]
      · rintro dom' doms' rest' heq hsome
        cases heq
        obtain ⟨hd, hall⟩ := hinside dom doms (listener :: rest) rfl hsome
        refine ⟨hd, fun l hl => ?_⟩
        rcases hall l hl with hl | hl
        · rcases List.mem_cons.mp hl with rfl | hl
          · exact Or.inr hfound
          · exact Or.inl hl
        · exact Or.inr hl
      · intro l
        simp only [Sync.pending, mem_pending, Pass.ahead, Option.map_some, Option.getD_some,
          List.cons_append, List.mem_cons]
        grind
    · have hnodup' : (synced ++ [listener]).Nodup := by
        rw [List.nodup_append]
        exact ⟨hnodup, by simp, by rintro l hl m hm rfl; simp_all⟩
      have hsynced' : ∀ l ∈ synced ++ [listener], l ∈ registrations.map Prod.snd := by
        intro l hl
        rcases List.mem_append.mp hl with hl | hl
        · exact hsynced l hl
        · rw [List.mem_singleton.mp hl]
          exact hknown listener (List.mem_cons_self ..)
      have hcount : (synced ++ [listener]).length ≤ registry.listenerCount := by
        have hle := (hnodup'.subperm hsynced').length_le
        rwa [List.length_map, ← hreg.count] at hle
      refine ⟨{ s with active := some ⟨domain, synced ++ [listener], .listeners dom doms rest⟩ },
        some listener, ?_, ⟨hs, hnodup', hsynced', hrest, ?_, nofun⟩, ?_, Or.inr ⟨rfl, hwork⟩⟩
      · simp only [passStep, hfound, if_false, hcount, if_true]
      · rintro dom' doms' rest' heq hsome
        cases heq
        obtain ⟨hd, hall⟩ := hinside dom doms (listener :: rest) rfl hsome
        refine ⟨hd, fun l hl => ?_⟩
        rcases hall l hl with hl | hl
        · rcases List.mem_cons.mp hl with rfl | hl
          · exact Or.inr (List.mem_append_right _ (List.mem_singleton_self _))
          · exact Or.inl hl
        · exact Or.inr (List.mem_append_left _ hl)
      · intro l
        simp only [Sync.pending, mem_pending, Pass.ahead, Option.map_some, Option.getD_some,
          List.cons_append, List.mem_cons, List.mem_append, Option.mem_some_iff]
        grind

/-- The next pass goes on behind the listeners that were walked: it invokes none. -/
theorem passDone_step {doms : List Domain} (hs : 0 < s.syncCount)
    (h : PassOk registrations ⟨domain, synced, .passDone doms⟩) :
    StepOk registrations registry s ⟨domain, synced, .passDone doms⟩ := by
  obtain ⟨hnodup, hsynced, -, -, hbehind⟩ := h
  have hpending : ∀ q : Pass, q = ⟨domain, synced, .domains doms⟩ → ∀ l, l ∉ q.pending := by
    rintro q rfl l hl
    obtain ⟨hahead, hnot⟩ := mem_pending.mp hl
    exact hnot (hbehind doms rfl l hahead)
  by_cases hlast : s.syncCount - 1 = 0
  · refine ⟨⟨s.syncCount - 1, none⟩, none, ?_, hlast, ?_, Or.inl ?_⟩
    · simp [passStep, hlast]
    · simp [Sync.pending, mem_pending, Pass.ahead]
    · show s.syncCount - 1 < s.syncCount
      omega
  · refine ⟨⟨s.syncCount - 1, some ⟨domain, synced, .domains doms⟩⟩, none, ?_,
      ⟨Nat.pos_of_ne_zero hlast, hnodup, hsynced, ?_, nofun, nofun⟩, ?_, Or.inl ?_⟩
    · simp [passStep, hlast]
    · exact fun l hl => hsynced l (hbehind doms rfl l hl)
    · intro l
      simp only [Sync.pending, Option.map_some, Option.getD_some, hpending _ rfl l]
      simp [mem_pending, Pass.ahead]
    · show s.syncCount - 1 < s.syncCount
      omega

theorem passStep_ok (hreg : RegistryOk registrations registry) (hs : 0 < s.syncCount)
    (h : PassOk registrations p) : StepOk registrations registry s p := by
  obtain ⟨domain, synced, point⟩ := p
  cases point with
  | domains doms => exact domains_step hs h
  | listeners dom doms rest => exact listeners_step hreg hs h
  | passDone doms => exact passDone_step hs h

/-- A step of the machine keeps the invariant and loses no pending listener. Only a call adds
some. -/
theorem step_ok (hreg : RegistryOk registrations registry) (h : SyncOk registrations s)
    (log : List ℕ) (op : Op) :
    ∃ t log', step registry (s, log) op = .ok (t, log') ∧ SyncOk registrations t ∧
      (∀ l, l ∈ log ∨ l ∈ s.pending → l ∈ log' ∨ l ∈ t.pending) ∧
      (op = .advance →
        (∀ l, l ∈ log' ∨ l ∈ t.pending → l ∈ log ∨ l ∈ s.pending) ∧
        (s.active ≠ none →
          t.syncCount < s.syncCount ∨ t.syncCount = s.syncCount ∧ t.work < s.work)) := by
  obtain ⟨count, active⟩ := s
  cases op with
  | call domain =>
    cases active with
    | none =>
      have hzero : count = 0 := h
      subst hzero
      refine ⟨_, log, rfl, ?_, ?_, nofun⟩
      · refine ⟨Nat.one_pos, List.nodup_nil, nofun, fun l hl => ?_, nofun, nofun⟩
        obtain ⟨r, hr, hrl, -⟩ := (mem_walked_registry hreg domain l).mp hl
        exact hrl ▸ List.mem_map_of_mem hr
      · rintro l (hl | hl)
        · exact Or.inl hl
        · simp [Sync.pending] at hl
    | some p =>
      obtain ⟨hpos, hpass⟩ := h
      have hbusy : count + 1 > 1 := by
        show 1 < count + 1
        exact Nat.succ_lt_succ hpos
      refine ⟨⟨count + 1, some p⟩, log, ?_, ⟨Nat.succ_pos _, hpass⟩, fun l hl => hl, nofun⟩
      rw [step, prefsSync, if_pos hbusy]
  | advance =>
    cases active with
    | none => exact ⟨_, log, rfl, h, fun l hl => hl, fun _ => ⟨fun l hl => hl, nofun⟩⟩
    | some p =>
      obtain ⟨hpos, hpass⟩ := h
      obtain ⟨t, invoked, hstep, ht, hpending, hless⟩ := passStep_ok hreg hpos hpass
      refine ⟨t, log ++ invoked.toList, ?_, ht, fun l hl => ?_, fun _ => ⟨fun l hl => ?_, ?_⟩⟩
      · simp only [step, hstep]
      · have hl : l ∈ log ∨ l ∈ p.pending := hl
        rw [hpending] at hl
        simpa only [List.mem_append, Option.mem_toList, Option.mem_def, or_assoc] using hl
      · show l ∈ log ∨ l ∈ p.pending
        rw [hpending]
        simpa only [List.mem_append, Option.mem_toList, Option.mem_def, or_assoc] using hl
      · exact fun _ => hless

theorem run_ok (hreg : RegistryOk registrations registry) (h : SyncOk registrations s)
    (log : List ℕ) (ops : List Op) :
    ∃ t log', runM (step registry) (s, log) ops = .ok (t, log') ∧ SyncOk registrations t ∧
      (∀ l, l ∈ log ∨ l ∈ s.pending → l ∈ log' ∨ l ∈ t.pending) ∧
      ((∀ op ∈ ops, op = .advance) →
        ∀ l, l ∈ log' ∨ l ∈ t.pending → l ∈ log ∨ l ∈ s.pending) := by
  induction ops generalizing s log with
  | nil => exact ⟨s, log, rfl, h, fun l hl => hl, fun _ l hl => hl⟩
  | cons op ops ih =>
    obtain ⟨t, log₁, hstep, ht, hkeep, hadvance⟩ := step_ok hreg h log op
    obtain ⟨u, log₂, hrun, hu, hkeep', hback⟩ := ih ht log₁
    refine ⟨u, log₂, ?_, hu, fun l hl => hkeep' l (hkeep l hl), fun hall l hl => ?_⟩
    · rw [runM_cons_ok ops hstep]
      exact hrun
    · have hop : op = .advance := hall op (List.mem_cons_self ..)
      have hrest := hback (fun op hop => hall op (List.mem_cons_of_mem _ hop)) l hl
      exact (hadvance hop).1 l hrest

/-- Left alone, the running call comes to its end. -/
theorem advance_ends (hreg : RegistryOk registrations registry) (s : Sync)
    (h : SyncOk registrations s) (log : List ℕ) :
    ∃ n t log', runM (step registry) (s, log) (List.replicate n .advance) = .ok (t, log') ∧
      t.active = none := by
  by_cases hidle : s.active = none
  · exact ⟨0, s, log, rfl, hidle⟩
  · obtain ⟨t, log₁, hstep, ht, -, hadvance⟩ := step_ok hreg h log .advance
    have hless := (hadvance rfl).2 hidle
    obtain ⟨n, u, log₂, hrun, hu⟩ := advance_ends hreg t ht log₁
    refine ⟨n + 1, u, log₂, ?_, hu⟩
    rw [List.replicate_succ, runM_cons_ok _ hstep]
    exact hrun
termination_by (s.syncCount, s.work)
decreasing_by
  rcases hless with hcount | ⟨hcount, hwork⟩
  · exact Prod.Lex.left _ _ hcount
  · rw [hcount]
    exact Prod.Lex.right _ hwork

end Steps

/-! ## Coverage -/

/-- **Which listeners a call reaches.** In every run a covered call is followed by an invocation of
each listener it asks for, before no call is running any more. When no further call comes in
between, a call that is not covered misses one. The running call always comes to its end. -/
theorem prefs_sync_coverage (registrations : List (List UInt8 × ℕ)) (pre : List Op) :
    ∃ s log, run (registerAll registrations) .idle pre = .ok (s, log) ∧ ∀ domain,
      (∀ post, ∃ t invoked,
        run (registerAll registrations) s (.call domain :: post) = .ok (t, invoked) ∧
        (t.active = none →
          (Covered registrations s domain →
            ∀ l, Requested registrations domain l → l ∈ invoked) ∧
          ((∀ op ∈ post, op = .advance) →
            (∀ l, Requested registrations domain l → l ∈ invoked) →
              Covered registrations s domain))) ∧
      ∃ n t invoked,
        run (registerAll registrations) s (.call domain :: List.replicate n .advance) =
          .ok (t, invoked) ∧ t.active = none := by
  have hreg := registerAll_ok registrations
  have hidle : SyncOk registrations Sync.idle := rfl
  obtain ⟨s, log, hpre, hs, -, -⟩ := run_ok hreg hidle [] pre
  refine ⟨s, log, hpre, fun domain => ?_⟩
  have hcall : step (registerAll registrations) (s, []) (.call domain) =
      .ok (prefsSync (registerAll registrations) s domain, []) := rfl
  obtain ⟨s₀, log₀, heq, hs', -⟩ := step_ok hreg hs [] (.call domain)
  cases hcall.symm.trans heq
  -- a covered call finds, or makes, every listener it asks for pending
  have hcovered : Covered registrations s domain ↔ ∀ l, Requested registrations domain l →
      l ∈ (prefsSync (registerAll registrations) s domain).pending := by
    obtain ⟨count, active⟩ := s
    cases active with
    | none =>
      have hzero : count = 0 := hs
      subst hzero
      refine iff_of_true trivial fun l hl => ?_
      refine mem_pending.mpr ⟨?_, List.not_mem_nil⟩
      exact (mem_walked_registry hreg domain l).mpr hl
    | some p =>
      have hbusy : count + 1 > 1 := Nat.succ_lt_succ hs.1
      rw [prefsSync, if_pos hbusy]
      rfl
  constructor
  · intro post
    obtain ⟨t, invoked, hrun, -, hkeep, hback⟩ := run_ok hreg hs' [] post
    refine ⟨t, invoked, ?_, fun hend => ⟨fun hcov l hl => ?_, fun hall hseen => ?_⟩⟩
    · rw [run, runM_cons_ok post hcall]
      exact hrun
    · have hpending : t.pending = [] := by simp [Sync.pending, hend]
      have hl := hkeep l (Or.inr (hcovered.mp hcov l hl))
      simpa [hpending] using hl
    · refine hcovered.mpr fun l hl => ?_
      simpa using hback hall l (Or.inl (hseen l hl))
  · obtain ⟨n, t, invoked, hrun, hend⟩ := advance_ends hreg _ hs' []
    refine ⟨n, t, invoked, ?_, hend⟩
    rw [run, runM_cons_ok _ hcall]
    exact hrun

/-- A call for one domain from inside a listener of another one: nobody invokes its listener. -/
theorem prefs_sync_coalesced :
    ¬ ∀ registrations pre domain post s log t invoked,
      run (registerAll registrations) .idle pre = .ok (s, log) →
      run (registerAll registrations) s (.call domain :: post) = .ok (t, invoked) →
      t.active = none → ∀ l, Requested registrations domain l → l ∈ invoked := by
  intro h
  have hmissed := h [([1], 1), ([2], 2)] [.call (some [1]), .advance, .advance, .advance] (some [2])
    (List.replicate 6 .advance) _ _ _ _ rfl rfl rfl 2 ⟨([2], 2), by decide, rfl, by decide⟩
  exact absurd hmissed (by decide)

end Apple2ix.Prefs
