import Mathlib.Data.List.Basic
import Apple2ix.Foundations.Runs

/-! The preference listeners of prefs.c. A call of `prefs_sync` walks the registered listeners
outside of the lock, so that other calls, of other threads or of a listener it invokes, come in
between any two of its steps. -/
namespace Apple2ix.Prefs
open Runs
set_option autoImplicit false

/-! ## Registration -/

/-- `prefs_domain_s`: the name of a domain and its listeners, the latest first. A listener is the
address of its callback. -/
structure Domain where
  domain : List UInt8
  listeners : List ℕ
  deriving DecidableEq, Repr

/-- The list `domains` and `listenerCount`. -/
structure Registry where
  domains : List Domain
  listenerCount : ℕ
  deriving DecidableEq, Repr

/-- The search of `prefs_registerListener` for a domain, with the listener put in front where it
is found. -/
def addListener (domain : List UInt8) (callback : ℕ) : List Domain → Option (List Domain)
  | [] => none
  | dom :: doms =>
    if domain = dom.domain then some ({ dom with listeners := callback :: dom.listeners } :: doms)
    else (addListener domain callback doms).map (dom :: ·)

/-- `prefs_registerListener`: a domain that is not there yet is put in front. -/
def prefsRegisterListener (registry : Registry) (domain : List UInt8) (callback : ℕ) : Registry :=
  { domains := (addListener domain callback registry.domains).getD
      (⟨domain, [callback]⟩ :: registry.domains)
    listenerCount := registry.listenerCount + 1 }

/-- The listeners after some registrations. -/
def registerAll (registrations : List (List UInt8 × ℕ)) : Registry :=
  registrations.foldl (fun registry r => prefsRegisterListener registry r.1 r.2) ⟨[], 0⟩

/-! ## A synchronisation -/

/-- Where the call that synchronises stands: at the test of `while (dom)`, at the test of
`while (listener)` inside it, or behind the loop. The list is what `dom` points at. -/
inductive Point
  | domains (doms : List Domain)
  | listeners (dom : Domain) (doms : List Domain) (rest : List ℕ)
  | passDone (doms : List Domain)
  deriving DecidableEq, Repr

/-- The variables of the call that synchronises. -/
structure Pass where
  domain : Option (List UInt8)
  alreadySynced : List ℕ
  point : Point
  deriving DecidableEq, Repr

/-- The shared counter, and the call that found it at zero as long as it runs. -/
structure Sync where
  syncCount : ℕ
  active : Option Pass
  deriving DecidableEq, Repr

/-- No call is running. -/
def Sync.idle : Sync := ⟨0, none⟩

/-- The prologue of `prefs_sync`, under the lock: the call returns when another one is running. -/
def prefsSync (registry : Registry) (s : Sync) (domain : Option (List UInt8)) : Sync :=
  let syncCount := s.syncCount + 1
  if syncCount > 1 then { s with syncCount := syncCount }
  else ⟨syncCount, some ⟨domain, [], .domains registry.domains⟩⟩

/-- A failed `assert`. -/
inductive Fault
  | assertion
  deriving DecidableEq, Repr

/-- What the loop does next at a point, with the listener that it invokes. -/
def passStep (registry : Registry) (s : Sync) (p : Pass) : Except Fault (Sync × Option ℕ) :=
  match p.point with
  | .domains [] => .ok ({ s with active := some { p with point := .passDone [] } }, none)
  | .domains (dom :: doms) =>
    if p.domain.any (· ≠ dom.domain) then
      .ok ({ s with active := some { p with point := .domains doms } }, none)
    else .ok ({ s with active := some { p with point := .listeners dom doms dom.listeners } }, none)
  | .listeners dom doms (listener :: rest) =>
    if listener ∈ p.alreadySynced then
      -- ignoring already synced listener
      .ok ({ s with active := some { p with point := .listeners dom doms rest } }, none)
    else
      let alreadySynced := p.alreadySynced ++ [listener]
      let p := { p with alreadySynced := alreadySynced, point := .listeners dom doms rest }
      if alreadySynced.length ≤ registry.listenerCount then
        .ok ({ s with active := some p }, some listener)
      else .error .assertion
  | .listeners dom doms [] =>
    if p.domain.isSome then
      .ok ({ s with active := some { p with point := .passDone (dom :: doms) } }, none)
    else .ok ({ s with active := some { p with point := .domains doms } }, none)
  | .passDone doms =>
    -- under the lock; the next pass goes on where `dom` points
    let syncCount := s.syncCount - 1
    if syncCount = 0 then .ok (⟨syncCount, none⟩, none)
    else .ok (⟨syncCount, some { p with point := .domains doms }⟩, none)

/-- What happens next: somebody calls `prefs_sync`, or the running call goes on. -/
inductive Op
  | call (domain : Option (List UInt8))
  | advance
  deriving DecidableEq, Repr

/-- One step, with the listeners invoked so far. -/
def step (registry : Registry) (s : Sync × List ℕ) : Op → Except Fault (Sync × List ℕ)
  | .call domain => .ok (prefsSync registry s.1 domain, s.2)
  | .advance =>
    match s.1.active with
    | none => .ok s
    | some p =>
      match passStep registry s.1 p with
      | .ok (t, invoked) => .ok (t, s.2 ++ invoked.toList)
      | .error e => .error e

/-- The steps `ops` from `s`, with the listeners that they invoke, in order. -/
def run (registry : Registry) (s : Sync) (ops : List Op) : Except Fault (Sync × List ℕ) :=
  runM (step registry) (s, []) ops

/-! ## What a call asks for -/

/-- The listeners that a call for `domain` is about. -/
def Requested (registrations : List (List UInt8 × ℕ)) (domain : Option (List UInt8))
    (listener : ℕ) : Prop :=
  ∃ r ∈ registrations, r.2 = listener ∧ ∀ d ∈ domain, r.1 = d

/-- The listeners of the first domain in a list that a call for `domain` walks, or of all of
them. -/
def walked (domain : Option (List UInt8)) (doms : List Domain) : List ℕ :=
  match domain with
  | none => doms.flatMap Domain.listeners
  | some d => ((doms.find? fun dom => d = dom.domain).map Domain.listeners).getD []

/-- The listeners that the running call comes to before the end of its pass. -/
def Pass.ahead (p : Pass) : List ℕ :=
  match p.point with
  | .domains doms => walked p.domain doms
  | .listeners _ doms rest => rest ++ if p.domain.isSome then [] else walked p.domain doms
  | .passDone _ => []

/-- The listeners that are ahead and were not invoked yet. -/
def Pass.pending (p : Pass) : List ℕ := p.ahead.filter (· ∉ p.alreadySynced)

/-- A call for `domain` is *covered*: none is running, or the running one is yet to invoke every
listener that the call is about. -/
def Covered (registrations : List (List UInt8 × ℕ)) (s : Sync) (domain : Option (List UInt8)) :
    Prop :=
  match s.active with
  | none => True
  | some p => ∀ listener, Requested registrations domain listener → listener ∈ p.pending

end Apple2ix.Prefs
