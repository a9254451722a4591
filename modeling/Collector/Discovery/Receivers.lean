import Collector.Confmap.Merge
import Collector.Discovery.ConsumeLogs

/-!
# The receivers to discover

`updateReceiverForObserver` and `createDiscoveryReceiversAndObservers` for one receiver. The stored entries share the
map of the default block, into which the blocks of the observers are merged.
-/

namespace Collector.Discovery

open Lib List Option

variable {ok : Bool} {done : List ComponentID}
variable {o : ComponentID} {observerRule : Str} {st st' : EntryState}

/-! ## Blocks -/

/-- A Go map. `none` is the nil map, which can be read but not written. -/
abbrev Block := Option (List (Str × Tree))

variable {d : Block}

def Block.item (b : Block) (k : Str) : Tree := (find k (b.getD [])).getD .absent

def blockTree : Option Block → Tree
  | none => .absent
  | some b => .node b.item

/-- The new content of `dst`. A write to the nil map panics. -/
def mergeMaps (dst src : Block) : Option Block :=
  match dst with
  | none => if (src.getD []).isEmpty then some none else none
  | some d =>
    let ks := keys d ++ (keys (src.getD [])).filter fun k => k ∉ keys d
    some (some (ks.map fun k => (k, (dst.item k).merge (src.item k))))

theorem blockTree_mergeMaps {dst src b : Block} (h : mergeMaps dst src = some b) :
    blockTree (some b) = (blockTree (some dst)).merge (blockTree (some src)) := by
  have hi : ∀ k, b.item k = (dst.item k).merge (src.item k) := by
    intro k
    cases dst with
    | none =>
      unfold mergeMaps at h
      dsimp only at h
      split at h
      · cases h
        have hsrc : src.getD [] = [] := isEmpty_iff.mp (by assumption)
        simp [Block.item, hsrc]
      · cases h
    | some d =>
      cases h
      unfold Block.item
      rw [getD_some, find_table]
      split_ifs with hk
      · rfl
      · have hd : k ∉ keys d := fun hmem => hk (by simp [hmem])
        have hsrc : k ∉ keys (src.getD []) := fun hmem => hk (by simp [hmem, hd])
        rw [← find_none] at hd hsrc
        simp [hd, hsrc]
  exact congrArg MapTree.node (funext hi)

theorem isSome_mergeMaps {dst src b : Block} (h : mergeMaps dst src = some b) : b.isSome = dst.isSome := by
  unfold mergeMaps at h
  cases dst with
  | none =>
    dsimp only at h
    split at h <;> cases h
    rfl
  | some d =>
    cases h
    rfl

theorem mergeMaps_isSome_iff (dst src : Block) : (mergeMaps dst src).isSome ↔ (dst = none → src.getD [] = []) := by
  unfold mergeMaps
  cases dst with
  | none => cases h : src.getD [] <;> simp
  | some d => simp

def asBlock (m : Fields) : Block := some (m.map fun e => (e.1, e.2.tree))

theorem blockTree_asBlock (m : Fields) : blockTree (some (asBlock m)) = (Value.map m).tree := by
  rw [tree_map]
  refine congrArg MapTree.node (funext fun k => ?_)
  induction m with
  | nil => rw [fieldsTree]; rfl
  | cons e m ih =>
    obtain ⟨j, v⟩ := e
    unfold asBlock Block.item at ih ⊢
    rw [getD_some, map_cons, find, fieldsTree]
    by_cases hj : j = k
    · simp [hj]
    · rw [if_neg hj, if_neg hj]
      exact ih

/-- On blocks of Go maps it gives what the Go function leaves, unless a key holds the delimiter. -/
theorem mergeMaps_asBlock (dst src : Fields) (hdst : Confmap.Clean dst) (hsrc : Confmap.Clean src) :
    ∃ b, mergeMaps (asBlock dst) (asBlock src) = some b ∧
      blockTree (some b) = (Value.map (Confmap.mergeMaps dst src)).tree := by
  have hs : (mergeMaps (asBlock dst) (asBlock src)).isSome := by
    rw [mergeMaps_isSome_iff]
    rintro ⟨⟩
  obtain ⟨b, hb⟩ := isSome_iff_exists.mp hs
  refine ⟨b, hb, ?_⟩
  rw [blockTree_mergeMaps hb, blockTree_asBlock, blockTree_asBlock, Confmap.tree_mergeMaps hdst hsrc]

/-! ## The code -/

def defaultType : ComponentID := ⟨"default", []⟩

structure ReceiverToDiscoverEntry where
  rule : ComponentID → Option Str
  config : ComponentID → Option Block
  enabled : Option Bool
  entry : Option Tree

/-- Its `config` is the block of an ID, not a copy. -/
structure EntryState where
  config : ComponentID → Option Block
  entryRule : Str
  entryConfig : Option ComponentID

def updateReceiverForObserver (receiver : ReceiverToDiscoverEntry) (st : EntryState)
    (observerID : ComponentID) : Option (Bool × EntryState) :=
  match receiver.rule observerID with
  | none => some (false, st)
  | some observerRule =>
    -- The rule is written into the entry, which can be nil.
    if receiver.entry.isNone then none
    else
      let st := { st with entryRule := observerRule }
      match st.config defaultType, st.config observerID with
      | none, none => some (false, st)
      | none, some _ => some (true, { st with entryConfig := some observerID })
      | some _, none => some (true, { st with entryConfig := some defaultType })
      | some defaultConfig, some observerConfigBlock =>
        (mergeMaps defaultConfig observerConfigBlock).map fun merged =>
          (true, { st with
            entryConfig := some defaultType
            config := Function.update st.config defaultType (some merged) })

/-- An entry of `unexpandedReceiverEntries`: a shallow copy, or a map of its own. -/
inductive Stored where
  | shared (rule : Str) (config : Option ComponentID)
  | copied (t : Tree)

def entryWith (receiver : ReceiverToDiscoverEntry) (rule : Str) (config : Tree) : Tree :=
  ((receiver.entry.getD .absent).set "rule" (.leaf (.str rule))).set "config" config

def view (receiver : ReceiverToDiscoverEntry) (config : ComponentID → Option Block) : Stored → Tree
  | .shared rule block => entryWith receiver rule (blockTree (block.bind config))
  | .copied t => t

structure Overrides where
  enabled : Option Bool
  conf : Tree

structure Store where
  state : EntryState
  stored : List (ComponentID × Stored)
  used : List (ComponentID × Tree)

variable {s : Store}

def factoryForObserverType (extType : Str) : Bool :=
  extType ∈ ["docker_observer".toList, "host_observer".toList, "k8s_observer".toList, "ecs_task_observer".toList]

def createdObservers (creates : ComponentID → Bool) (observers : List ComponentID) : List ComponentID :=
  observers.filter fun o => factoryForObserverType o.type && creates o

section
variable (receiver : ReceiverToDiscoverEntry) (overrides : Option Overrides)

def isEnabled : Bool := ((overrides.bind Overrides.enabled) <|> receiver.enabled).getD true

def withProperties (receiverEntry : Tree) : Tree :=
  match overrides with
  | none => receiverEntry
  | some p => receiverEntry.merge p.conf

def createForObserver (s : Store) (observerID : ComponentID) : Option Store :=
  match updateReceiverForObserver receiver s.state observerID with
  | none => none
  | some (false, st) => some { s with state := st }
  | some (true, st) =>
    let receiverEntry := Stored.shared st.entryRule st.entryConfig
    let raw := withProperties overrides (view receiver st.config receiverEntry)
    -- Only the merge with properties makes a copy.
    let receiverEntry := if overrides.isSome then .copied raw else receiverEntry
    if isEnabled receiver overrides then
      some ⟨st, put observerID receiverEntry s.stored, put observerID raw s.used⟩
    else some { s with state := st }

def createForObservers (creates : ComponentID → Bool) (observers : List ComponentID) : Option Store :=
  (createdObservers creates observers).foldlM (createForObserver receiver overrides)
    ⟨⟨receiver.config, [], none⟩, [], []⟩

def getUnexpandedReceiverConfig (s : Store) (observerID : ComponentID) : Option Tree :=
  (find observerID s.stored).map (view receiver s.state.config)

/-! ## What each observer should get -/

def mergedConfig (observerID : ComponentID) : Option Tree :=
  match receiver.config defaultType, receiver.config observerID with
  | none, none => none
  | d, block => some ((blockTree d).merge (blockTree block))

def entryFor (observerID : ComponentID) : Option Tree :=
  if isEnabled receiver overrides then
    match receiver.rule observerID, mergedConfig receiver observerID with
    | some rule, some config => some (withProperties overrides (entryWith receiver rule config))
    | _, _ => none
  else none

def Right (creates : ComponentID → Bool) (observers : List ComponentID) : Prop :=
  ∃ s, createForObservers receiver overrides creates observers = some s ∧
    ∀ o, let expected := if o ∈ createdObservers creates observers then
          entryFor receiver overrides o else none
      getUnexpandedReceiverConfig receiver s o = expected ∧ find o s.used = expected

def NoNilWrite (observers : List ComponentID) : Prop :=
  ∀ o ∈ observers, (receiver.rule o).isSome → receiver.entry.isSome ∧ (receiver.config defaultType = some none →
      ∀ block, receiver.config o = some block → block.getD [] = [])

def NothingShared (observers : List ComponentID) : Prop :=
  receiver.config defaultType = none ∨
  ∀ o ∈ observers, ∀ o' ∈ observers, (receiver.rule o).isSome → (receiver.rule o').isSome →
    mergedConfig receiver o = mergedConfig receiver o'

/-! ## The maps of the entry -/

def Kept (config : ComponentID → Option Block) : Prop :=
  (∀ o, o ≠ defaultType → config o = receiver.config o) ∧
  (config defaultType).map Option.isSome = (receiver.config defaultType).map Option.isSome

def blockOf (observerID : ComponentID) : ComponentID :=
  if (receiver.config defaultType).isSome then defaultType else observerID

variable {receiver}

variable {config : ComponentID → Option Block}

theorem Kept.default_isSome (h : Kept receiver config) :
    (config defaultType).isSome = (receiver.config defaultType).isSome := by
  simpa using congrArg isSome h.2

variable {observers : List ComponentID}

theorem createdObservers_ne {creates : ComponentID → Bool} (h : o ∈ createdObservers creates observers) :
    o ≠ defaultType := by
  rintro rfl
  have hf := (Bool.and_eq_true _ _ ▸ (mem_filter.mp h).2).1
  have hu : factoryForObserverType defaultType.type = false := by decide +kernel
  exact absurd hf (by rw [hu]; decide)

theorem update_skip (st : EntryState) {o : ComponentID} (hr : receiver.rule o = none) :
    updateReceiverForObserver receiver st o = some (false, st) := by
  unfold updateReceiverForObserver
  rw [hr]

theorem Kept.default_some (h : Kept receiver config) (hd : receiver.config defaultType = some d) :
    ∃ b, config defaultType = some b ∧ b.isSome = d.isSome := by
  have hmap := h.2
  rw [hd, map_some, map_eq_some_iff] at hmap
  exact hmap

theorem update_isSome_iff (hk : Kept receiver st.config)
    (ho : o ≠ defaultType) (hr : receiver.rule o = some observerRule) :
    (updateReceiverForObserver receiver st o).isSome ↔ receiver.entry.isSome ∧
      (receiver.config defaultType = some none → ∀ block, receiver.config o = some block → block.getD [] = []) := by
  unfold updateReceiverForObserver
  rw [hr]
  dsimp only
  rw [hk.1 o ho]
  cases he : receiver.entry with
  | none => simp
  | some entry =>
    cases hd : receiver.config defaultType with
    | none =>
      have hdef : st.config defaultType = none := by
        simpa [hd] using hk.default_isSome
      cases receiver.config o <;> simp [hdef]
    | some d =>
      obtain ⟨b, hb, hnil⟩ := hk.default_some hd
      rw [hb]
      cases receiver.config o with
      | none => simp
      | some block =>
        have hbd : b = none ↔ d = none := by
          cases b <;> cases d <;> simp_all
        simp [mergeMaps_isSome_iff, hbd]

structure Updated (receiver : ReceiverToDiscoverEntry) (st : EntryState) (o : ComponentID)
    (observerRule : Str) (ok : Bool) (st' : EntryState) : Prop where
  kept : Kept receiver st'.config
  ok_eq : ok = (mergedConfig receiver o).isSome
  rule_eq : st'.entryRule = observerRule
  config_eq : ok = true → st'.entryConfig = some (blockOf receiver o)
  content : (receiver.config defaultType).isSome → blockTree (st'.config defaultType) =
      (blockTree (st.config defaultType)).merge (blockTree (receiver.config o))

theorem update_spec (hk : Kept receiver st.config) (ho : o ≠ defaultType) (hr : receiver.rule o = some observerRule)
    (h : updateReceiverForObserver receiver st o = some (ok, st')) :
    Updated receiver st o observerRule ok st' := by
  unfold updateReceiverForObserver at h
  rw [hr] at h
  dsimp only at h
  rw [hk.1 o ho] at h
  split at h
  · cases h
  cases hd : receiver.config defaultType with
  | none =>
    have hdef : st.config defaultType = none := by
      simpa [hd] using hk.default_isSome
    rw [hdef] at h
    cases hbl : receiver.config o <;> rw [hbl] at h <;> cases h <;>
      exact ⟨hk, by simp [mergedConfig, hd, hbl], rfl, by simp [blockOf, hd], by simp [hd]⟩
  | some d =>
    obtain ⟨b, hb, hnil⟩ := hk.default_some hd
    rw [hb] at h
    cases hbl : receiver.config o with
    | none =>
      rw [hbl] at h
      cases h
      refine ⟨hk, by simp [mergedConfig, hd, hbl], rfl, by simp [blockOf, hd], fun _ => ?_⟩
      rw [hb, hbl]
      exact (MapTree.merge_absent _).symm
    | some block =>
      rw [hbl] at h
      obtain ⟨merged, hm, h⟩ := map_eq_some_iff.mp h
      cases h
      refine ⟨⟨?_, ?_⟩, by simp [mergedConfig, hd, hbl], rfl, by simp [blockOf, hd], fun _ => ?_⟩
      · intro o' ho'
        dsimp only
        rw [Function.update_of_ne ho']
        exact hk.1 o' ho'
      · simp [isSome_mergeMaps hm, hd, hnil]
      · dsimp only
        rw [Function.update_self, hb, hbl]
        exact blockTree_mergeMaps hm

/-! ## One observer -/

variable {overrides}

theorem create_skip (s : Store) {o : ComponentID} (hr : receiver.rule o = none) :
    createForObserver receiver overrides s o = some s := by
  unfold createForObserver
  rw [update_skip _ hr]

theorem create_isSome (s : Store) (o : ComponentID) : (createForObserver receiver overrides s o).isSome =
      (updateReceiverForObserver receiver s.state o).isSome := by
  unfold createForObserver
  match updateReceiverForObserver receiver s.state o with
  | none => rfl
  | some (false, st) => rfl
  | some (true, st) =>
    dsimp only
    split <;> rfl

def rawEntry (receiver : ReceiverToDiscoverEntry) (overrides : Option Overrides) (observerRule : Str)
    (o : ComponentID) (config : ComponentID → Option Block) : Tree :=
  withProperties overrides (entryWith receiver observerRule (blockTree (config (blockOf receiver o))))

def receiverEntry (receiver : ReceiverToDiscoverEntry) (overrides : Option Overrides)
    (observerRule : Str) (o : ComponentID) (config : ComponentID → Option Block) : Stored :=
  if overrides.isSome then .copied (rawEntry receiver overrides observerRule o config)
  else .shared observerRule (some (blockOf receiver o))

theorem create_spec {s' : Store} (hk : Kept receiver s.state.config)
    (ho : o ≠ defaultType) (hr : receiver.rule o = some observerRule)
    (h : createForObserver receiver overrides s o = some s') :
    ∃ ok, Updated receiver s.state o observerRule ok s'.state ∧
      s'.stored = (if ok && isEnabled receiver overrides then
        put o (receiverEntry receiver overrides observerRule o s'.state.config) s.stored else s.stored) ∧
      s'.used = (if ok && isEnabled receiver overrides then
        put o (rawEntry receiver overrides observerRule o s'.state.config) s.used else s.used) := by
  unfold createForObserver at h
  match hu : updateReceiverForObserver receiver s.state o with
  | none => simp [hu] at h
  | some (false, st) =>
    rw [hu] at h
    cases h
    exact ⟨false, update_spec hk ho hr hu, rfl, rfl⟩
  | some (true, st) =>
    have hs := update_spec hk ho hr hu
    have hc := hs.config_eq rfl
    have hr' := hs.rule_eq
    rw [hu] at h
    dsimp only at h
    rw [hc, hr'] at h
    split at h
    · rename_i he
      cases h
      refine ⟨true, hs, ?_, ?_⟩ <;> rw [he] <;> rfl
    · rename_i he
      cases h
      refine ⟨true, hs, ?_, ?_⟩ <;> simp [he]

/-! ## All observers -/

variable (creates : ComponentID → Bool)

theorem createForObservers_isSome_iff (observers : List ComponentID) :
    (createForObservers receiver overrides creates observers).isSome ↔
      NoNilWrite receiver (createdObservers creates observers) := by
  have hst : ∀ o ∈ createdObservers creates observers, ∀ s : Store, Kept receiver s.state.config →
      ((createForObserver receiver overrides s o).isSome ↔ NoNilWrite receiver [o]) ∧
      ∀ s', createForObserver receiver overrides s o = some s' → Kept receiver s'.state.config := by
    intro o ho s hk
    have hne := createdObservers_ne ho
    cases hr : receiver.rule o with
    | none =>
      rw [create_skip s hr]
      exact ⟨by simp [NoNilWrite, hr], fun s' hs' => by cases hs'; exact hk⟩
    | some observerRule =>
      rw [create_isSome, update_isSome_iff hk hne hr]
      refine ⟨by simp [NoNilWrite, hr], fun s' hs' => ?_⟩
      obtain ⟨ok, hsp, -⟩ := create_spec hk hne hr hs'
      exact hsp.kept
  unfold createForObservers
  constructor
  · intro hso
    obtain ⟨s, hs⟩ := isSome_iff_exists.mp hso
    have hrun := foldlM_inv (createForObserver receiver overrides)
      (fun done s => Kept receiver s.state.config ∧ NoNilWrite receiver done) _ _
      ⟨⟨fun _ _ => rfl, rfl⟩, by simp [NoNilWrite]⟩ ?_ s hs
    · exact hrun.2
    · rintro done o s s' ho ⟨hk, hd⟩ hs'
      obtain ⟨hiff, hk'⟩ := hst o ho s hk
      have hl := hiff.mp (by rw [hs']; rfl)
      refine ⟨hk' s' hs', fun o' ho' => ?_⟩
      rcases mem_append.mp ho' with ho' | ho'
      · exact hd o' ho'
      · exact hl o' ho'
  · intro hno
    obtain ⟨s, hs, -⟩ := foldlM_some (createForObserver receiver overrides)
      (fun _ s => Kept receiver s.state.config) ⟨⟨receiver.config, [], none⟩, [], []⟩
      (createdObservers creates observers) ⟨fun _ _ => rfl, rfl⟩ (by
        intro done o s ho hk
        obtain ⟨hiff, hk'⟩ := hst o ho s hk
        have hone : NoNilWrite receiver [o] := by
          intro o' ho'
          rw [mem_singleton.mp ho']
          exact hno o ho
        obtain ⟨s', hs'⟩ := isSome_iff_exists.mp (hiff.mpr hone)
        exact ⟨s', hs', hk' s' hs'⟩)
    rw [hs]
    rfl

def storedEntry (receiver : ReceiverToDiscoverEntry) (overrides : Option Overrides) (o : ComponentID) :
    Option Stored :=
  if isEnabled receiver overrides then
    match receiver.rule o, mergedConfig receiver o with
    | some observerRule, some config =>
      some (if overrides.isSome then
        .copied (withProperties overrides (entryWith receiver observerRule config))
        else .shared observerRule (some (blockOf receiver o)))
    | _, _ => none
  else none

theorem stored_shared (hs : createForObservers receiver none creates observers = some s) :
    Tabulates (storedEntry receiver none) (createdObservers creates observers) s.stored ∧
      (isEnabled receiver none = false → s.used = []) := by
  have hrun := foldlM_inv (createForObserver receiver none)
    (fun done s => Kept receiver s.state.config ∧ Tabulates (storedEntry receiver none) done s.stored ∧
      (isEnabled receiver none = false → s.used = [])) _ _
    ⟨⟨fun _ _ => rfl, rfl⟩, Tabulates.nil _, fun _ => rfl⟩ ?_ s hs
  · exact hrun.2
  rintro done o s s' ho ⟨hk, hsto, hu⟩ hs'
  cases hr : receiver.rule o with
  | none =>
    rw [create_skip s hr] at hs'
    cases hs'
    exact ⟨hk, hsto.skip (by simp [storedEntry, hr]), hu⟩
  | some observerRule =>
    obtain ⟨ok, hsp, hst, hus⟩ := create_spec hk (createdObservers_ne ho) hr hs'
    refine ⟨hsp.kept, hsto.step hst ?_, ?_⟩
    · unfold storedEntry receiverEntry
      rw [hsp.ok_eq, hr]
      cases mergedConfig receiver o <;> cases isEnabled receiver none <;> rfl
    · intro hd
      simpa [hd] using hus.trans (by simpa [hd] using hu hd)

theorem mergedConfig_default (hd : receiver.config defaultType = some d) (o : ComponentID) :
    mergedConfig receiver o = some ((blockTree (some d)).merge (blockTree (receiver.config o))) := by
  unfold mergedConfig
  rw [hd]

/-- The default block is as in the file, or as an observer should get it. -/
def Unspoilt (receiver : ReceiverToDiscoverEntry) (observers : List ComponentID)
    (config : ComponentID → Option Block) : Prop :=
  blockTree (config defaultType) = blockTree (receiver.config defaultType) ∨
  ∃ o ∈ observers, (receiver.rule o).isSome ∧ mergedConfig receiver o = some (blockTree (config defaultType))

section
variable (hshared : NothingShared receiver observers)
include hshared

theorem Updated.own (hsp : Updated receiver st o observerRule ok st') (ho : o ∈ observers) (hne : o ≠ defaultType)
    (hr : (receiver.rule o).isSome) (hc : (mergedConfig receiver o).isSome)
    (hs : Unspoilt receiver observers st.config) :
    mergedConfig receiver o = some (blockTree (st'.config (blockOf receiver o))) := by
  cases hd : receiver.config defaultType with
  | none =>
    rw [blockOf, hd, isSome_none, if_neg (by decide), hsp.kept.1 o hne]
    unfold mergedConfig at hc ⊢
    rw [hd] at hc ⊢
    cases hb : receiver.config o with
    | none => simp [hb] at hc
    | some block => exact congrArg some (MapTree.absent_merge _)
  | some d =>
    rw [blockOf, hd, isSome_some, if_pos rfl, hsp.content (by rw [hd]; rfl)]
    rw [mergedConfig_default hd]
    rcases hs with hs | ⟨p, hp, hpr, hpc⟩
    · rw [hs, hd]
    · -- The block of the observer is merged into the same content a second time.
      have hsa : mergedConfig receiver p = mergedConfig receiver o := by
        rcases hshared with hn | hall
        · rw [hn] at hd
          cases hd
        · exact hall p hp o ho hpr hr
      rw [hsa, mergedConfig_default hd, some.injEq] at hpc
      rw [← hpc, MapTree.merge_merge_self]

theorem Updated.unspoilt (hs : Updated receiver st o observerRule ok st') (ho : o ∈ observers) (hne : o ≠ defaultType)
    (hr : (receiver.rule o).isSome) (hst : Unspoilt receiver observers st.config) :
    Unspoilt receiver observers st'.config := by
  cases hd : receiver.config defaultType with
  | none =>
    have hdef : st'.config defaultType = none := by
      simpa [hd] using hs.kept.default_isSome
    exact Or.inl (by rw [hdef, hd])
  | some d =>
    have hc : (mergedConfig receiver o).isSome := by rw [mergedConfig_default hd]; rfl
    have hown := hs.own hshared ho hne hr hc hst
    rw [blockOf, hd, isSome_some, if_pos rfl] at hown
    exact Or.inr ⟨o, ho, hr, hown⟩

theorem own_stays (hk : Kept receiver st'.config) {p : ComponentID}
    (ho : o ∈ observers) (hp : p ∈ observers) (hpne : p ≠ defaultType)
    (hor : (receiver.rule o).isSome) (hpr : (receiver.rule p).isSome)
    (hown : (mergedConfig receiver o).isSome →
      mergedConfig receiver o = some (blockTree (st'.config (blockOf receiver o)))) (hc : Kept receiver config)
    (hpo : mergedConfig receiver p = some (blockTree (config (blockOf receiver p)))) :
    mergedConfig receiver p = some (blockTree (st'.config (blockOf receiver p))) := by
  cases hd : receiver.config defaultType with
  | none =>
    rw [blockOf, hd, isSome_none, if_neg (by decide)] at hpo ⊢
    rw [hk.1 p hpne, ← hc.1 p hpne]
    exact hpo
  | some d =>
    have hs : mergedConfig receiver p = mergedConfig receiver o := by
      rcases hshared with hn | hall
      · rw [hn] at hd
        cases hd
      · exact hall p hp o ho hpr hor
    rw [hs, hown (by rw [mergedConfig_default hd]; rfl)]
    simp [blockOf, hd]

structure AllOwn (receiver : ReceiverToDiscoverEntry) (overrides : Option Overrides)
    (observers done : List ComponentID) (s : Store) : Prop where
  kept : Kept receiver s.state.config
  unspoilt : Unspoilt receiver observers s.state.config
  mem : ∀ o ∈ done, o ∈ observers
  own : ∀ o ∈ done, (receiver.rule o).isSome → (mergedConfig receiver o).isSome →
    mergedConfig receiver o = some (blockTree (s.state.config (blockOf receiver o)))
  stored : Tabulates (storedEntry receiver overrides) done s.stored
  used : Tabulates (entryFor receiver overrides) done s.used

theorem AllOwn.step {s' : Store} (hne : ∀ o ∈ observers, o ≠ defaultType) (ho : o ∈ observers)
    (h : AllOwn receiver overrides observers done s)
    (hs' : createForObserver receiver overrides s o = some s') :
    AllOwn receiver overrides observers (done ++ [o]) s' := by
  have hmem : ∀ p ∈ done ++ [o], p ∈ observers := by
    intro p hp
    rcases mem_append.mp hp with hp | hp
    · exact h.mem p hp
    · exact mem_singleton.mp hp ▸ ho
  cases hr : receiver.rule o with
  | none =>
    rw [create_skip s hr] at hs'
    cases hs'
    refine ⟨h.kept, h.unspoilt, hmem, ?_, h.stored.skip (by simp [storedEntry, hr]),
      h.used.skip (by simp [entryFor, hr])⟩
    intro p hp hpr
    rcases mem_append.mp hp with hp | hp
    · exact h.own p hp hpr
    · rw [mem_singleton.mp hp, hr] at hpr
      cases hpr
  | some observerRule =>
    obtain ⟨ok, hsp, hst, hus⟩ := create_spec h.kept (hne o ho) hr hs'
    have hso : (receiver.rule o).isSome := by rw [hr]; rfl
    have hown := fun hco => hsp.own hshared ho (hne o ho) hso hco h.unspoilt
    have hmc := (em (mergedConfig receiver o).isSome).imp hown not_isSome_iff_eq_none.mp
    refine ⟨hsp.kept, hsp.unspoilt hshared ho (hne o ho) hso h.unspoilt, hmem, ?_,
      h.stored.step hst ?_, h.used.step hus ?_⟩
    · intro p hp hpr hpc
      rcases mem_append.mp hp with hp | hp
      · exact own_stays hshared hsp.kept ho (h.mem p hp) (hne p (h.mem p hp)) hso hpr hown h.kept (h.own p hp hpr hpc)
      · rw [mem_singleton.mp hp] at hpc ⊢
        exact hown hpc
    · unfold storedEntry receiverEntry rawEntry
      rw [hsp.ok_eq, hr]
      rcases hmc with hmc | hmc <;> rw [hmc] <;> cases isEnabled receiver overrides <;> rfl
    · unfold entryFor rawEntry
      rw [hsp.ok_eq, hr]
      rcases hmc with hmc | hmc <;> rw [hmc] <;> cases isEnabled receiver overrides <;> rfl

end

theorem AllOwn.read (h : AllOwn receiver overrides observers done s) (o : ComponentID) :
    getUnexpandedReceiverConfig receiver s o =
      if o ∈ done then entryFor receiver overrides o else none := by
  unfold getUnexpandedReceiverConfig
  rw [h.stored o]
  split_ifs with ho
  · unfold storedEntry entryFor
    cases isEnabled receiver overrides with
    | false => rfl
    | true =>
      cases hr : receiver.rule o with
      | none => rfl
      | some observerRule =>
        cases hco : mergedConfig receiver o with
        | none => rfl
        | some config =>
          have hc := h.own o ho (by rw [hr]; rfl) (by rw [hco]; rfl)
          rw [hco, some.injEq] at hc
          cases overrides with
          | some p => rfl
          | none =>
            show some (entryWith receiver observerRule (blockTree _)) = _
            rw [bind_some, ← hc]
            rfl
  · rfl

theorem right_of_nothingShared (overrides : Option Overrides) (creates : ComponentID → Bool)
    (hno : NoNilWrite receiver (createdObservers creates observers))
    (hshared : NothingShared receiver (createdObservers creates observers)) :
    Right receiver overrides creates observers := by
  obtain ⟨s, hs⟩ := isSome_iff_exists.mp
    ((@createForObservers_isSome_iff receiver overrides creates observers).mpr hno)
  have hrun := foldlM_inv (createForObserver receiver overrides)
    (AllOwn receiver overrides (createdObservers creates observers)) _ _
    ⟨⟨fun _ _ => rfl, rfl⟩, Or.inl rfl, by simp, by simp, Tabulates.nil _, Tabulates.nil _⟩
    (fun _ _ _ _ ho h hs' => h.step hshared (fun _ => createdObservers_ne) ho hs') s hs
  exact ⟨s, hs, fun o => ⟨hrun.read o, hrun.used o⟩⟩

theorem isEnabled_none : isEnabled receiver none = false ↔ receiver.enabled = some false := by
  unfold isEnabled
  rcases receiver.enabled with _ | _ | _ <;> decide

theorem right_of_disabled (hno : NoNilWrite receiver (createdObservers creates observers))
    (hd : receiver.enabled = some false) : Right receiver none creates observers := by
  obtain ⟨s, hs⟩ := isSome_iff_exists.mp
    ((@createForObservers_isSome_iff receiver none creates observers).mpr hno)
  obtain ⟨hst, hu⟩ := stored_shared creates hs
  have hoff := isEnabled_none.mpr hd
  refine ⟨s, hs, fun o => ?_⟩
  unfold getUnexpandedReceiverConfig
  rw [hst o, hu hoff]
  simp [storedEntry, entryFor, hoff]

theorem nothingShared_of_right (he : isEnabled receiver none = true) (h : Right receiver none creates observers) :
    NothingShared receiver (createdObservers creates observers) := by
  obtain ⟨s, hs, hri⟩ := h
  obtain ⟨hst, -⟩ := stored_shared creates hs
  cases hd : receiver.config defaultType with
  | none => exact Or.inl hd
  | some d =>
    have hb : ∀ o ∈ createdObservers creates observers, (receiver.rule o).isSome →
        mergedConfig receiver o = some (blockTree (s.state.config defaultType)) := by
      intro o ho hr
      obtain ⟨observerRule, hr⟩ := isSome_iff_exists.mp hr
      have hre := (hri o).1
      unfold getUnexpandedReceiverConfig at hre
      rw [hst o, if_pos ho, storedEntry, entryFor, if_pos he, hr,
        mergedConfig_default hd, if_pos ho, if_pos he] at hre
      have hat := congrArg (fun t : Tree => t.at_ ["config"]) (some.inj hre)
      simp only [view, withProperties, entryWith, MapTree.at_set_self, blockOf, hd] at hat
      rw [mergedConfig_default hd]
      exact congrArg some (by simpa using hat.symm)
    refine Or.inr fun o ho o' ho' hr hr' => ?_
    rw [hb o ho hr, hb o' ho' hr']

end

/-- Without discovery properties, the observers get their own entries exactly when no nil map is written and nothing
is shared by two of them. The order of the observers does not matter for it. -/
theorem createForObservers_right_iff (receiver : ReceiverToDiscoverEntry) (creates : ComponentID → Bool)
    (observers : List ComponentID) :
    (Right receiver none creates observers ↔ NoNilWrite receiver (createdObservers creates observers) ∧
        (receiver.enabled = some false ∨ NothingShared receiver (createdObservers creates observers))) ∧
    ∀ overrides, NoNilWrite receiver (createdObservers creates observers) →
      NothingShared receiver (createdObservers creates observers) →
      Right receiver overrides creates observers := by
  refine ⟨⟨fun h => ?_, ?_⟩, fun overrides => right_of_nothingShared overrides creates⟩
  · have hno := (@createForObservers_isSome_iff receiver none creates observers).mp
      (by obtain ⟨s, hs, -⟩ := h; rw [hs]; rfl)
    cases he : isEnabled receiver none with
    | false => exact ⟨hno, Or.inl (isEnabled_none.mp he)⟩
    | true => exact ⟨hno, Or.inr (nothingShared_of_right creates he h)⟩
  · rintro ⟨hno, hd | hshared⟩
    · exact right_of_disabled creates hno hd
    · exact right_of_nothingShared none creates hno hshared

/-! ## Two observers with a block each -/

def k8sObserver : ComponentID := ⟨"k8s_observer", []⟩

def ecsObserver : ComponentID := ⟨"ecs_task_observer", []⟩

def twoBlocks : ReceiverToDiscoverEntry where
  rule o := if o = k8sObserver then some "type == \"port\""
    else if o = ecsObserver then some "type == \"container\"" else none
  config o := if o = defaultType then some (some [])
    else if o = k8sObserver then some (some [("timeout", .leaf (.str "1s"))])
    else if o = ecsObserver then some (some [("tls", .leaf (.str "on"))]) else none
  enabled := none
  entry := some (.node fun _ => .absent)

/-- The entry of the first observer gets the item of the second one. -/
theorem createForObservers_block_leaks :
    (∃ s, createForObservers twoBlocks none (fun _ => true) [k8sObserver, ecsObserver] = some s ∧
      (getUnexpandedReceiverConfig twoBlocks s k8sObserver).map
        (fun t => t.at_ ["config".toList, "tls".toList]) = some (.leaf (.str "on".toList))) ∧
    (∃ s, createForObservers twoBlocks none (fun _ => true) [ecsObserver, k8sObserver] = some s ∧
      (find k8sObserver s.used).map
        (fun t => t.at_ ["config".toList, "tls".toList]) = some (.leaf (.str "on".toList))) ∧
    (entryFor twoBlocks none k8sObserver).map (fun t => t.at_ ["config".toList, "tls".toList]) = some .absent ∧
    ¬Right twoBlocks none (fun _ => true) [k8sObserver, ecsObserver] := by
  refine ⟨⟨_, rfl, rfl⟩, ⟨_, rfl, rfl⟩, rfl, ?_⟩
  rintro ⟨s, hs, hr⟩
  cases hs
  have htls : some (MapTree.leaf (Value.str "on".toList)) = some (MapTree.absent : Tree) :=
    congrArg (Option.map fun t : Tree => t.at_ ["config".toList, "tls".toList]) (hr k8sObserver).1
  cases htls

end Collector.Discovery
