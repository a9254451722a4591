import Collector.Filter.StringFilter

/-!
# The containers of the Docker monitor

`ListAndWatchContainers` keeps a cache of containers and tells the monitor, which has a map of its own, of each change.
-/

namespace Collector.Docker

open Lib Collector.Filter List Option

variable {id : Str}

structure Container where
  id : Str
  image : Str
  running : Bool
  paused : Bool
  deriving DecidableEq

variable {c : Container}

def Container.live (c : Container) : Bool := c.running && !c.paused

/-- The map of the monitor after a change of the cache. -/
def changeHandler (monitored : List (Str × Container)) (old new : Option Container) : List (Str × Container) :=
  match new, old with
  | none, none => monitored
  | none, some old => remove old.id monitored
  | some new, _ => if !new.running || new.paused then remove new.id monitored else put new.id new monitored

/-- The cache, and the map of the monitor. -/
structure State where
  containers : List (Str × Container)
  monitored : List (Str × Container)

def State.initial : State := ⟨[], []⟩

inductive Action where
  | destroyed (id : Str)
  /-- Any other event. The inspection may fail. -/
  | changed (id : Str) (inspect : Option Container)
  | listFailed
  /-- The listed containers, what each inspection gives, the order of the goroutines and that of the last loop. -/
  | synced (ids : List Str) (inspect : Str → Option Container) (order stale : List Str)

section
variable (imageFilter : Option BasicStringFilter)

def excluded (image : Str) : Bool :=
  match imageFilter with
  | none => false
  | some imageFilter => imageFilter.matchesText image

def updateContainer (containers : List (Str × Container)) (id : Str) (inspect : Option Container) :
    List (Str × Container) × Bool :=
  match inspect with
  | none => (containers, false)
  | some c => if excluded imageFilter c.image then (containers, false) else (put id c containers, true)

namespace State

def added (inspect : Str → Option Container) (s : State) (id : Str) : State :=
  let containers := (updateContainer imageFilter s.containers id (inspect id)).1
  ⟨containers, changeHandler s.monitored none (find id containers)⟩

def removed (s : State) (id : Str) : State :=
  ⟨remove id s.containers, changeHandler s.monitored (find id s.containers) none⟩

def removedStale (ids : List Str) (s : State) (id : Str) : State := if id ∈ ids then s else s.removed id

def uncached (s : State) (ids : List Str) : List Str := ids.filter fun id => id ∉ keys s.containers

def step (s : State) : Action → Option State
  | .destroyed id => some (if id ∈ keys s.containers then s.removed id else s)
  | .changed id inspect =>
    match updateContainer imageFilter s.containers id inspect with
    | (_, false) => some s
    | (containers, true) =>
      some ⟨containers, changeHandler s.monitored (find id s.containers) (find id containers)⟩
  | .listFailed => some s
  | .synced ids inspect order stale =>
    let s' := order.foldl (added imageFilter inspect) s
    if order.Perm (s.uncached ids) ∧ stale.Perm (keys s'.containers) then
      some (stale.foldl (removedStale ids) s')
    else none

end State

/-! ## Both maps -/

/-- An inspection gives the container that was asked for, with its image. -/
def Action.Valid (images : Str → Str) : Action → Prop
  | .destroyed _ | .listFailed => True
  | .changed id inspect => ∀ c, inspect = some c → c.id = id ∧ c.image = images id
  | .synced _ inspect _ _ => ∀ id c, inspect id = some c → c.id = id ∧ c.image = images id

/-- The monitor has the cached containers that are live. -/
structure InStep (images : Str → Str) (s : State) : Prop where
  cached : ∀ id c, find id s.containers = some c → c.id = id ∧ excluded imageFilter (images id) = false
  monitored : ∀ id, find id s.monitored = (find id s.containers).filter Container.live

variable {imageFilter} {images : Str → Str} {s s' : State}

theorem inStep_initial : InStep imageFilter images .initial := ⟨nofun, fun _ => rfl⟩

theorem find_changeHandler_some (monitored : List (Str × Container)) (old : Option Container) (new : Container)
    (id : Str) :
    find id (changeHandler monitored old (some new)) =
      if id = new.id then (some new).filter Container.live else find id monitored := by
  have hl : new.live = !(!new.running || new.paused) := by
    unfold Container.live
    cases new.running <;> cases new.paused <;> rfl
  unfold changeHandler
  rw [filter_some, hl]
  dsimp only
  cases !new.running || new.paused with
  | true => rw [if_pos rfl, find_remove]; rfl
  | false =>
    rw [if_neg Bool.false_ne_true, find_put]
    rfl

theorem InStep.changed (h : InStep imageFilter images s) {containers : List (Str × Container)}
    (hf : find id containers = some c)
    (ho : ∀ j, j ≠ id → find j containers = find j s.containers) (hid : c.id = id)
    (hi : excluded imageFilter (images id) = false) (old : Option Container) :
    InStep imageFilter images ⟨containers, changeHandler s.monitored old (some c)⟩ := by
  refine ⟨fun j d hd => ?_, fun j => ?_⟩
  · by_cases hj : j = id
    · subst hj
      cases hf.symm.trans hd
      exact ⟨hid, hi⟩
    · rw [ho j hj] at hd
      exact h.cached j d hd
  · rw [find_changeHandler_some, hid]
    by_cases hj : j = id
    · rw [if_pos hj, hj, hf]
    · rw [if_neg hj, ho j hj, h.monitored j]

theorem InStep.removed (h : InStep imageFilter images s) (id : Str) : InStep imageFilter images (s.removed id) := by
  refine ⟨fun j c hc => ?_, fun j => ?_⟩
  · unfold State.removed at hc
    dsimp only at hc
    rw [find_remove] at hc
    split at hc
    · cases hc
    · exact h.cached j c hc
  · unfold State.removed
    dsimp only
    rw [find_remove]
    cases hf : find id s.containers with
    | none =>
      have hn : find id s.monitored = none := by rw [h.monitored, hf]; rfl
      change find j s.monitored = _
      split_ifs with hj
      · rw [hj, hn]
        rfl
      · exact h.monitored j
    | some c =>
      change find j (remove c.id s.monitored) = _
      rw [(h.cached id c hf).1, find_remove]
      split
      · rfl
      · exact h.monitored j

/-- What an inspection puts into the cache. -/
def fresh (imageFilter : Option BasicStringFilter) (inspect : Option Container) : Option Container :=
  inspect.filter fun c => !excluded imageFilter c.image

theorem updateContainer_eq (containers : List (Str × Container)) (id : Str) (inspect : Option Container) :
    updateContainer imageFilter containers id inspect =
      match fresh imageFilter inspect with
      | none => (containers, false)
      | some c => (put id c containers, true) := by
  unfold updateContainer fresh
  cases inspect with
  | none => rfl
  | some c =>
    dsimp only
    rw [filter_some]
    cases excluded imageFilter c.image <;> rfl

theorem fresh_valid {inspect : Option Container}
    (hv : ∀ c, inspect = some c → c.id = id ∧ c.image = images id) (h : fresh imageFilter inspect = some c) :
    c.id = id ∧ excluded imageFilter (images id) = false := by
  unfold fresh at h
  rw [filter_eq_some_iff] at h
  obtain ⟨hid, hi⟩ := hv c h.1
  rw [← hi]
  exact ⟨hid, by simpa using h.2⟩

variable {inspect : Str → Option Container}

theorem InStep.added (h : InStep imageFilter images s)
    (hv : ∀ id c, inspect id = some c → c.id = id ∧ c.image = images id) (id : Str) :
    InStep imageFilter images (s.added imageFilter inspect id) := by
  unfold State.added
  rw [updateContainer_eq]
  cases hfr : fresh imageFilter (inspect id) with
  | none =>
    dsimp only
    cases hf : find id s.containers with
    | none => exact h
    | some c =>
      obtain ⟨hid, hi⟩ := h.cached id c hf
      exact h.changed hf (fun _ _ => rfl) hid hi none
  | some c =>
    obtain ⟨hid, hi⟩ := fresh_valid (hv id) hfr
    dsimp only
    rw [find_put_self]
    exact h.changed (find_put_self _ _ _) (fun j hj => find_put_ne _ _ hj) hid hi none

theorem InStep.foldl {step : State → Str → State} (hs : ∀ s id, InStep imageFilter images s →
    InStep imageFilter images (step s id)) (h : InStep imageFilter images s) (ids : List Str) :
    InStep imageFilter images (ids.foldl step s) := by
  induction ids generalizing s with
  | nil => exact h
  | cons id ids ih => exact ih (hs s id h)

theorem InStep.step (h : InStep imageFilter images s) {a : Action} (hv : a.Valid images)
    (hst : s.step imageFilter a = some s') : InStep imageFilter images s' := by
  cases a with
  | destroyed id =>
    cases hst
    split
    · exact h.removed id
    · exact h
  | changed id inspect =>
    unfold State.step at hst
    dsimp only at hst
    rw [updateContainer_eq] at hst
    cases hf : fresh imageFilter inspect with
    | none =>
      rw [hf] at hst
      cases hst
      exact h
    | some c =>
      rw [hf] at hst
      cases hst
      obtain ⟨hid, hi⟩ := fresh_valid hv hf
      rw [find_put_self]
      exact h.changed (find_put_self _ _ _) (fun j hj => find_put_ne _ _ hj) hid hi _
  | listFailed =>
    cases hst
    exact h
  | synced ids inspect order stale =>
    unfold State.step at hst
    dsimp only at hst
    split at hst
    · cases hst
      refine InStep.foldl (fun s id hs => ?_) (InStep.foldl (fun s id hs => hs.added hv id) h order) stale
      unfold State.removedStale
      split
      · exact hs
      · exact hs.removed id
    · cases hst

/-! ## A sync -/

theorem find_foldl_added (inspect : Str → Option Container) (order : List Str) (id : Str) :
    find id (order.foldl (State.added imageFilter inspect) s).containers =
      if id ∈ order then (fresh imageFilter (inspect id)).or (find id s.containers) else find id s.containers := by
  induction order generalizing s with
  | nil => rfl
  | cons j order ih =>
    have hone : find id (s.added imageFilter inspect j).containers =
        if id = j then (fresh imageFilter (inspect id)).or (find id s.containers) else find id s.containers := by
      unfold State.added
      rw [updateContainer_eq]
      by_cases hj : id = j
      · subst hj
        rw [if_pos rfl]
        cases fresh imageFilter (inspect id) with
        | none => rfl
        | some c => exact find_put_self _ _ _
      · rw [if_neg hj]
        cases fresh imageFilter (inspect j) with
        | none => rfl
        | some c => exact find_put_ne _ _ hj
    rw [foldl_cons, ih, hone]
    by_cases hj : id = j
    · have hmem : id ∈ j :: order := mem_cons.mpr (.inl hj)
      rw [if_pos hj, if_pos hmem]
      split
      · cases fresh imageFilter (inspect id) <;> rfl
      · rfl
    · have hmem : id ∈ j :: order ↔ id ∈ order := by simp [hj]
      rw [if_neg hj]
      simp only [hmem]

theorem find_foldl_removedStale (ids stale : List Str) (id : Str) :
    find id (stale.foldl (State.removedStale ids) s).containers =
      if id ∈ stale ∧ id ∉ ids then none else find id s.containers := by
  induction stale generalizing s with
  | nil => simp
  | cons j stale ih =>
    have hone : find id (State.removedStale ids s j).containers =
        if id = j ∧ id ∉ ids then none else find id s.containers := by
      unfold State.removedStale
      split
      · rename_i hj
        rw [if_neg fun h => h.2 (h.1 ▸ hj)]
      · rename_i hj
        unfold State.removed
        rw [find_remove]
        by_cases heq : id = j
        · rw [if_pos heq, if_pos ⟨heq, heq ▸ hj⟩]
        · rw [if_neg heq, if_neg fun h => heq h.1]
    rw [foldl_cons, ih, hone]
    by_cases hj : id = j
    · by_cases hid : id ∈ ids
      · simp [hid]
      · simp [hj, hj ▸ hid]
    · simp [hj]

theorem find_synced {ids order stale : List Str}
    (hs : s.step imageFilter (.synced ids inspect order stale) = some s') (id : Str) :
    find id s'.containers =
      if id ∈ ids then (find id s.containers).or (fresh imageFilter (inspect id)) else none := by
  unfold State.step at hs
  dsimp only at hs
  split at hs
  · rename_i hp
    cases hs
    have ho : id ∈ order ↔ id ∈ ids ∧ find id s.containers = none := by
      rw [hp.1.mem_iff, State.uncached, mem_filter, find_none]
      simp
    have hst : id ∉ stale ↔ find id (order.foldl (State.added imageFilter inspect) s).containers = none := by
      rw [hp.2.mem_iff, find_none]
    rw [find_foldl_removedStale]
    by_cases hid : id ∈ ids
    · rw [if_neg fun h => h.2 hid, if_pos hid, find_foldl_added]
      cases hf : find id s.containers with
      | none =>
        rw [if_pos (ho.mpr ⟨hid, hf⟩)]
        cases fresh imageFilter (inspect id) <;> rfl
      | some c =>
        rw [if_neg fun h => by cases hf.symm.trans (ho.mp h).2]
        rfl
    · rw [if_neg hid]
      by_cases hmem : id ∈ stale
      · rw [if_pos ⟨hmem, hid⟩]
      · rw [if_neg fun h => hmem h.1]
        exact hst.mp hmem
  · cases hs

/-- Right after a sync in which nothing fails, stats are collected for exactly the listed containers whose image is
not excluded, just when none was cached as stopped or paused. -/
theorem sync_repairs_iff {actions : List Action} (hvalid : ∀ a ∈ actions, a.Valid images)
    (hrun : actions.foldlM (State.step imageFilter) .initial = some s) {ids order stale : List Str}
    {inspect : Str → Option Container} (hinspect : (Action.synced ids inspect order stale).Valid images)
    (hgood : ∀ id ∈ ids, id ∉ keys s.containers → ∃ c, inspect id = some c ∧ c.live)
    (hsync : s.step imageFilter (.synced ids inspect order stale) = some s') :
    (∀ id, id ∈ keys s'.monitored ↔ id ∈ ids ∧ excluded imageFilter (images id) = false) ↔
      ∀ id ∈ ids, ∀ c, find id s.containers = some c → c.live := by
  have hs : InStep imageFilter images s :=
    foldlM_inv _ (fun _ s => InStep imageFilter images s) _ actions inStep_initial
      (fun _ a s s' ha hs hst => hs.step (hvalid a ha) hst) s hrun
  have hm (id : Str) : id ∈ keys s'.monitored ↔ ∃ c, find id s'.containers = some c ∧ c.live := by
    rw [← not_iff_not, ← find_none, (hs.step hinspect hsync).monitored, filter_eq_none_iff]
    simp
  have hca {id : Str} {c : Container} (hf : find id s.containers = some c) :
      excluded imageFilter (images id) = false := (hs.cached id c hf).2
  constructor
  · intro he id hid c hf
    have hmem := (he id).mpr ⟨hid, hca hf⟩
    rw [hm, find_synced hsync, if_pos hid, hf] at hmem
    obtain ⟨d, hd, hl⟩ := hmem
    cases hd
    exact hl
  · intro hr id
    rw [hm, find_synced hsync]
    by_cases hid : id ∈ ids
    · rw [if_pos hid]
      cases hf : find id s.containers with
      | some c =>
        have hl := hr id hid c hf
        simp [hid, hca hf, hl]
      | none =>
        -- An inspected container is cached unless its image is excluded.
        obtain ⟨c, hc, hl⟩ := hgood id hid ((find_none _ _).mp hf)
        have hi := (hinspect id c hc).2
        rw [hc, fresh, filter_some, hi]
        cases excluded imageFilter (images id) with
        | true => simp
        | false => simp [hid, hl]
    · simp [hid]

end

/-! ## A container that starts again -/

def container (id : Str) (running : Bool) : Container := ⟨id, [], running, false⟩

def inspectRunning (id : Str) : Option Container := some (container id true)

def firstSync : Action := .synced [['a']] inspectRunning [['a']] [['a']]

def stopped : Action := .changed ['a'] (some (container ['a'] false))

/-- The inspection after the start succeeds. -/
def cycled : List Action := [firstSync, stopped, .changed ['a'] (inspectRunning ['a'])]

/-- The inspection after the start fails. -/
def restarted : List Action := [firstSync, stopped, .changed ['a'] none]

def laterSync : Action := .synced [['a']] inspectRunning [] [['a']]

theorem inspectRunning_valid (id : Str) (c : Container) (h : inspectRunning id = some c) :
    c.id = id ∧ c.image = [] := by
  cases h
  exact ⟨rfl, rfl⟩

theorem stopped_valid : stopped.Valid fun _ => [] := by
  rintro _ ⟨⟩
  exact ⟨rfl, rfl⟩

def both : List (Str × Container) := [(['a'], container ['a'] true), (['b'], container ['b'] true)]

/-- One container was stopped and started before the sync, which lists another one besides. -/
theorem sync_repairs_cycled :
    (cycled ++ [Action.synced [['a'], ['b']] inspectRunning [['b']] [['a'], ['b']]]).foldlM (State.step none) .initial =
      some ⟨both, both⟩ ∧ ∀ id, id ∈ keys both ↔ id ∈ [['a'], ['b']] ∧ excluded none [] = false := by
  have hvalid : ∀ a ∈ cycled, a.Valid fun _ => [] := by
    simp only [cycled, forall_mem_cons]
    exact ⟨inspectRunning_valid, stopped_valid, inspectRunning_valid ['a'], nofun⟩
  refine ⟨rfl, (@sync_repairs_iff none (fun _ => []) ⟨both.take 1, both.take 1⟩ ⟨both, both⟩ cycled hvalid rfl
    [['a'], ['b']] [['b']] [['a'], ['b']] inspectRunning inspectRunning_valid (fun id _ _ => ⟨_, rfl, rfl⟩) rfl).mpr ?_⟩
  intro id _ c hf
  simp only [both, take, find] at hf
  split at hf
  · cases hf
    rfl
  · cases hf

theorem not_sync_repairs_restarted :
    (∀ a ∈ restarted ++ [laterSync], a.Valid fun _ => []) ∧ inspectRunning ['a'] = some (container ['a'] true) ∧
      (restarted ++ [laterSync]).foldlM (State.step none) .initial = some ⟨[(['a'], container ['a'] false)], []⟩ ∧
      ¬ ∀ id, id ∈ keys ([] : List (Str × Container)) ↔ id ∈ [['a']] ∧ excluded none [] = false := by
  refine ⟨?_, rfl, rfl, fun h => by cases (h ['a']).mpr ⟨by simp, rfl⟩⟩
  simp only [restarted, cons_append, nil_append, forall_mem_cons]
  exact ⟨inspectRunning_valid, stopped_valid, nofun, inspectRunning_valid, nofun⟩

end Collector.Docker
