import Collector.Discovery.ConsumeLogs

/-!
# The discovery configuration

`ConsumeLogs` stores the configuration of a receiver before it looks at the records, so what `discoveryConfig` emits can
be that of an observer which has not reported a success.
-/

namespace Collector.Discovery

open Lib
open List hiding max_eq_iff

/-! ## The code -/

def receiversKey : Str := "receivers"

def creatorKey : Str := "receiver_creator/discovery"

def underCreator (t : Tree) : Tree := .single receiversKey (.single creatorKey t)

def emptyMap : Tree := .node fun _ => .absent

def addReceiver (discoveredConfig : List (ComponentID × Tree)) (dCfg : Tree)
    (receiver : ComponentID × Status) : Tree :=
  if receiver.2 = .successful then
    match find receiver.1 discoveredConfig with
    | none => dCfg
    | some receiverCfgMap => dCfg.merge (underCreator receiverCfgMap)
  else dCfg

def receiverAdded (discoveredConfig : List (ComponentID × Tree)) (receivers : List (ComponentID × Status)) : Bool :=
  receivers.any fun receiver =>
    receiver.2 = .successful && (find receiver.1 discoveredConfig).isSome

def addObserver (discoveryObservers : ComponentID → Option Tree) (acc : Tree × List Str)
    (observer : ComponentID × Status) : Tree × List Str :=
  if observer.2 = .failed then acc
  else
    match discoveryObservers observer.1 with
    | none => acc
    | some observerCfg =>
      (acc.1.merge (.single "extensions" (.single observer.1.string observerCfg)), acc.2 ++ [observer.1.string])

def texts (ss : List Str) : Tree := .leaf (.list (ss.map .str))

/-- `discoveredReceivers` and `discoveredObservers` in the order in which Go ranges over them. -/
def discoveryConfig (discoveryObservers : ComponentID → Option Tree)
    (discoveredConfig : List (ComponentID × Tree)) (receivers observers : List (ComponentID × Status)) :
    Tree :=
  let dCfg := receivers.foldl (addReceiver discoveredConfig) emptyMap
  let dCfg := if receiverAdded discoveredConfig receivers then
      dCfg.merge (.single "service" (.single "receivers/splunk.discovery" (texts [creatorKey])))
    else dCfg
  let (extensions, names) := observers.foldl (addObserver discoveryObservers) (.single "extensions" emptyMap, [])
  let names := Strings.sortStrings names
  let dCfg := if names = [] then dCfg
    else
      (dCfg.merge (underCreator (.single "watch_observers" (texts names)))).merge
        (.single "service" (.single "extensions/splunk.discovery" (texts names)))
  dCfg.merge extensions

/-! ## What is emitted for one receiver -/

def emittedPath (receiverID : ComponentID) (q : List Str) : List Str :=
  receiversKey :: creatorKey :: receiversKey :: receiverID.string :: q

def OnlyOwn (receiverID : ComponentID) (t : Tree) : Prop :=
  ∀ name, name ≠ receiverID.string → t.Avoids [receiversKey, name]

theorem at_underCreator (t : Tree) (receiverID : ComponentID) (q : List Str) :
    (underCreator t).at_ (emittedPath receiverID q) = t.at_ (receiversKey :: receiverID.string :: q) := by
  unfold underCreator emittedPath
  simp

theorem avoids_underCreator {t : Tree} {receiverID : ComponentID} (h : t.Avoids [receiversKey, receiverID.string])
    (q : List Str) :
    (underCreator t).Avoids (emittedPath receiverID q) := by
  unfold underCreator emittedPath
  have := h.append q
  simpa using this

section
variable (discoveredConfig : List (ComponentID × Tree)) (receiverID : ComponentID) (q : List Str)

theorem addReceivers_other (receivers : List (ComponentID × Status)) (dCfg : Tree)
    (h : ∀ receiver ∈ receivers, receiverID.string ≠ receiver.1.string ∧
      ∀ t, find receiver.1 discoveredConfig = some t → OnlyOwn receiver.1 t) :
    (receivers.foldl (addReceiver discoveredConfig) dCfg).at_ (emittedPath receiverID q) =
      dCfg.at_ (emittedPath receiverID q) ∧
    (dCfg.Avoids (emittedPath receiverID q) →
      (receivers.foldl (addReceiver discoveredConfig) dCfg).Avoids (emittedPath receiverID q)) := by
  induction receivers generalizing dCfg with
  | nil => exact ⟨rfl, id⟩
  | cons receiver receivers ih =>
    rw [forall_mem_cons] at h
    obtain ⟨⟨hne, hown⟩, h⟩ := h
    rw [foldl_cons, (ih _ h).1]
    have hadd : (addReceiver discoveredConfig dCfg receiver).at_ (emittedPath receiverID q) =
          dCfg.at_ (emittedPath receiverID q) ∧ (dCfg.Avoids (emittedPath receiverID q) →
        (addReceiver discoveredConfig dCfg receiver).Avoids (emittedPath receiverID q)) := by
      unfold addReceiver
      split
      · cases hf : find receiver.1 discoveredConfig with
        | none => exact ⟨rfl, id⟩
        | some t =>
          have hav := avoids_underCreator (hown t hf _ hne) q
          exact ⟨MapTree.at_merge_left hav, fun h => h.merge hav⟩
      · exact ⟨rfl, id⟩
    exact ⟨hadd.1, fun hav => (ih _ h).2 (hadd.2 hav)⟩

theorem addReceivers_at (receivers : List (ComponentID × Status)) (dCfg rCfg : Tree)
    (hk : (receivers.map fun receiver => receiver.1.string).Nodup)
    (hown : ∀ receiver ∈ receivers, ∀ t, find receiver.1 discoveredConfig = some t → OnlyOwn receiver.1 t)
    (hmem : (receiverID, Status.successful) ∈ receivers) (hf : find receiverID discoveredConfig = some rCfg)
    (hav : dCfg.Avoids (emittedPath receiverID q)) :
    (receivers.foldl (addReceiver discoveredConfig) dCfg).at_ (emittedPath receiverID q) =
      rCfg.at_ (receiversKey :: receiverID.string :: q) := by
  obtain ⟨before, after, rfl⟩ := append_of_mem hmem
  rw [forall_mem_append, forall_mem_cons] at hown
  have hadd (dCfg : Tree) : addReceiver discoveredConfig dCfg (receiverID, .successful) =
      dCfg.merge (underCreator rCfg) := by simp [addReceiver, hf]
  have hne : ∀ receiver ∈ before ++ after, receiverID.string ≠ receiver.1.string := by
    rw [map_append, map_cons, nodup_middle, ← map_append, nodup_cons] at hk
    exact fun receiver h heq => hk.1 (heq ▸ mem_map_of_mem h)
  rw [forall_mem_append] at hne
  rw [foldl_append, foldl_cons, hadd, (addReceivers_other discoveredConfig receiverID q after _ fun receiver h =>
    ⟨hne.2 receiver h, hown.2.2 receiver h⟩).1, MapTree.at_merge_right, at_underCreator]
  exact (addReceivers_other discoveredConfig receiverID q before _ fun receiver h =>
    ⟨hne.1 receiver h, hown.1 receiver h⟩).2 hav

end

theorem addObservers_avoids (discoveryObservers : ComponentID → Option Tree) (observers : List (ComponentID × Status))
    (acc : Tree × List Str) (k : Str) (p : List Str) (hk : k ≠ "extensions") (hav : acc.1.Avoids (k :: p)) :
    (observers.foldl (addObserver discoveryObservers) acc).1.Avoids (k :: p) := by
  induction observers generalizing acc with
  | nil => exact hav
  | cons observer observers ih =>
    rw [foldl_cons]
    refine ih _ ?_
    unfold addObserver
    split
    · exact hav
    · split
      · exact hav
      · exact hav.merge (MapTree.avoids_single_ne _ _ _ _ hk)

theorem discoveryConfig_at (discoveryObservers : ComponentID → Option Tree)
    (discoveredConfig : List (ComponentID × Tree)) (receivers observers : List (ComponentID × Status))
    (receiverID : ComponentID) (q : List Str) (rCfg : Tree)
    (hk : (receivers.map fun receiver => receiver.1.string).Nodup)
    (hown : ∀ receiver ∈ receivers, ∀ t, find receiver.1 discoveredConfig = some t → OnlyOwn receiver.1 t)
    (hmem : (receiverID, Status.successful) ∈ receivers) (hf : find receiverID discoveredConfig = some rCfg) :
    (discoveryConfig discoveryObservers discoveredConfig receivers observers).at_
      (emittedPath receiverID q) = rCfg.at_ (receiversKey :: receiverID.string :: q) := by
  have hs : ∀ t : Tree, (MapTree.single "service".toList t).Avoids (emittedPath receiverID q) :=
    fun t => MapTree.avoids_single_ne _ _ _ _ (by decide)
  have hw : ∀ t : Tree, (underCreator (.single "watch_observers".toList t)).Avoids (emittedPath receiverID q) :=
    fun t => avoids_underCreator (MapTree.avoids_single_ne _ _ _ _ (by decide)) q
  have hext := addObservers_avoids discoveryObservers observers
    (.single "extensions".toList emptyMap, []) receiversKey
    (creatorKey :: receiversKey :: receiverID.string :: q) (by decide)
    (MapTree.avoids_single_ne _ _ _ _ (by decide))
  change MapTree.Avoids _ (emittedPath receiverID q) at hext
  have hadded := addReceivers_at discoveredConfig receiverID q receivers emptyMap rCfg hk hown hmem hf trivial
  unfold discoveryConfig
  dsimp only
  rw [MapTree.at_merge_left hext]
  split
  · split
    · rwa [MapTree.at_merge_left (hs _)]
    · exact hadded
  · rw [MapTree.at_merge_left (hs _), MapTree.at_merge_left (hw _)]
    split
    · rwa [MapTree.at_merge_left (hs _)]
    · exact hadded

/-! ## Whose configuration it is -/

def SuccessSeen (receiverID observerID : ComponentID) (es : List Effect) : Prop :=
  ∃ e ∈ es, e.receiverID = receiverID ∧ e.observerID = observerID ∧ .successful ∈ allStatuses e.scopeLogs

def lastWriter (receiverID : ComponentID) (es : List Effect) : Option ComponentID :=
  es.foldl (fun o e => if e.receiverID = receiverID ∧ e.rCfgs ≠ [] then some e.observerID else o) none

/-- A resource that stores a configuration of a successful receiver, or makes the stored one successful, comes from an
observer with a success. -/
def KeepsConfig (es : List Effect) (e : Effect) : Prop :=
  (e.rCfgs ≠ [] → statusOf e.receiverID (after es).statuses = (Status.successful : Status) →
    SuccessSeen e.receiverID e.observerID (es ++ [e])) ∧
  (e.rCfgs = [] → lastStatus e.scopeLogs = (Status.successful : Status) →
    ∀ o, lastWriter e.receiverID es = some o → SuccessSeen e.receiverID o (es ++ [e]))

def WriterSucceeded (es : List Effect) : Prop :=
  ∀ receiverID o, statusOf receiverID (after es).statuses = (Status.successful : Status) →
    lastWriter receiverID es = some o → SuccessSeen receiverID o es

theorem SuccessSeen.append {receiverID o : ComponentID} {es : List Effect}
    (h : SuccessSeen receiverID o es) (e : Effect) : SuccessSeen receiverID o (es ++ [e]) := by
  obtain ⟨e', he', h⟩ := h
  exact ⟨e', mem_append_left _ he', h⟩

theorem lastWriter_append (receiverID : ComponentID) (es : List Effect) (e : Effect) :
    lastWriter receiverID (es ++ [e]) =
      if e.receiverID = receiverID ∧ e.rCfgs ≠ [] then some e.observerID
      else lastWriter receiverID es := by
  unfold lastWriter
  rw [foldl_concat]

theorem successful_mem_of_last {scopeLogs : List (List (Option Str))}
    (h : lastStatus scopeLogs = (Status.successful : Status)) : .successful ∈ allStatuses scopeLogs := by
  have hl : (validStatuses (scopeLogs.headD [])).getLast? = some .successful := h
  have hmem := mem_of_getLast? hl
  cases scopeLogs with
  | nil => simp [validStatuses] at hmem
  | cons scope scopes => exact mem_append_left _ hmem

theorem writerSucceeded_append (es : List Effect) (e : Effect) (h : WriterSucceeded es) (hk : KeepsConfig es e) :
    WriterSucceeded (es ++ [e]) := by
  intro receiverID o hs hw
  rw [after_append] at hs
  rw [lastWriter_append] at hw
  by_cases hr : receiverID = e.receiverID
  · subst hr
    have hst : statusOf e.receiverID (applyEffect (after es) e).statuses =
        max (statusOf e.receiverID (after es).statuses) (lastStatus e.scopeLogs) :=
      statusOf_consumeScopes e.receiverID e.observerID e.scopeLogs (after es).statuses
    rw [hst, max_eq_iff] at hs
    by_cases hwr : e.rCfgs = []
    · rw [if_neg (by simp [hwr])] at hw
      rcases hs with ⟨hb, _⟩ | ⟨hl, _⟩
      · exact (h _ o hb hw).append e
      · exact hk.2 hwr hl o hw
    · rw [if_pos ⟨rfl, hwr⟩] at hw
      obtain rfl : e.observerID = o := by simpa using hw
      rcases hs with ⟨hb, _⟩ | ⟨hl, _⟩
      · exact hk.1 hwr hb
      · exact ⟨e, by simp, rfl, rfl, successful_mem_of_last hl⟩
  · rw [if_neg (fun hc => hr hc.1.symm)] at hw
    have hst : statusOf receiverID (applyEffect (after es) e).statuses = statusOf receiverID (after es).statuses :=
      statusOf_consumeScopes_other e.observerID hr e.scopeLogs _
    rw [hst] at hs
    exact (h receiverID o hs hw).append e

theorem find_foldl_put (receiverID r : ComponentID) (rCfgs : List Tree) (m : List (ComponentID × Tree)) :
    find r (rCfgs.foldl (fun m rCfg => put receiverID rCfg m) m) =
      if receiverID = r ∧ rCfgs ≠ [] then rCfgs.getLast? else find r m := by
  induction rCfgs using reverseRecOn with
  | nil => simp
  | append_singleton rCfgs rCfg ih =>
    rw [foldl_concat]
    by_cases hr : receiverID = r
    · subst hr; simp
    · rw [find_put_ne _ _ (Ne.symm hr), ih]
      simp [hr]

theorem stored_of_lastWriter (es : List Effect) (receiverID : ComponentID) (rCfg : Tree)
    (h : find receiverID (after es).discoveredConfig = some rCfg) : ∃ e ∈ es, e.receiverID = receiverID ∧
      lastWriter receiverID es = some e.observerID ∧ e.rCfgs.getLast? = some rCfg := by
  induction es using reverseRecOn with
  | nil => simp [after, newDiscoverer] at h
  | append_singleton es e ih =>
    rw [after_append] at h
    unfold applyEffect at h
    rw [find_foldl_put] at h
    rw [lastWriter_append]
    split_ifs at h with hw
    · rw [if_pos hw]
      exact ⟨e, by simp, hw.1, rfl, h⟩
    · rw [if_neg hw]
      obtain ⟨e', he', hr⟩ := ih h
      exact ⟨e', mem_append_left _ he', hr⟩

section
variable (entries : ComponentID → ComponentID → Option Tree) (decode : Str → Except Str Tree)

/-- The rule or the config that the entry for the observer puts under a key of the receiver. -/
def overlay (receiverID observerID : ComponentID) (k : Str) : Option Tree :=
  (entries receiverID observerID).bind fun entry =>
    match entry.at_ [k] with
    | .leaf (.str rule) => if k = "rule" ∧ rule ≠ [] then some (.leaf (.str rule)) else none
    | .node m => if k = "config" then some (.node m) else none
    | _ => none

/-- What a resource of the observer with this text stores: the decoded text with the rule and the config of the entry,
or the entry where the text has nothing for the receiver. -/
def FormedFor (receiverID observerID : ComponentID) (receiverConfig : Str) (rCfg : Tree) : Prop :=
  (∃ t, receiverConfig ≠ [] ∧ decode receiverConfig = .ok t ∧ ∀ k q,
    rCfg.at_ (receiversKey :: receiverID.string :: k :: q) =
      ((overlay entries receiverID observerID k).getD (t.at_ [receiversKey, receiverID.string, k])).at_ q) ∨
  entries receiverID observerID = some rCfg ∧ (receiverConfig = [] ∨
    ∀ t m, decode receiverConfig = .ok t → t.at_ [receiversKey, receiverID.string] ≠ .node m)

theorem at_set (u v : Tree) (key k : Str) (q : List Str) :
    (u.set key v).at_ (k :: q) = if k = key then v.at_ q else u.at_ (k :: q) := by
  split
  · subst k
    exact MapTree.at_set_self u key v q
  · exact MapTree.at_set_ne u v q ‹_›

theorem embed_at {receiverID : ComponentID} {rule : Str} {configSection : Option Tree} {t rCfg : Tree}
    (h : embed receiverID rule configSection t = .ok rCfg) (k : Str) (q : List Str) :
    rCfg.at_ (receiversKey :: receiverID.string :: k :: q) =
      ((if k = "config" then configSection else if k = "rule" ∧ rule ≠ [] then some (.leaf (.str rule)) else none).getD
        (t.at_ [receiversKey, receiverID.string, k])).at_ q := by
  have hne : "rule".toList ≠ "config".toList := by decide
  unfold embed at h
  unfold receiversKey
  generalize "receivers".toList = receivers, "rule".toList = ruleKey, "config".toList = configKey at *
  split at h
  · rename_i m rMap _ hmap
    obtain rfl := Except.ok.inj h
    have ht : t.at_ [receivers, receiverID.string, k] = rMap k := by
      have happ := MapTree.at_append t [receivers, receiverID.string] [k]
      rw [hmap] at happ
      exact happ.trans (MapTree.at_nil _)
    rw [ht, MapTree.at_set_self, MapTree.at_set_self]
    clear h
    by_cases hr : rule = [] <;> by_cases hk : k = ruleKey <;> by_cases hk' : k = configKey <;> cases configSection <;>
      simp_all [at_set]
  · cases h

theorem embed_error {receiverID : ComponentID} {rule : Str} {configSection : Option Tree} {t : Tree} {stop : Stop}
    (h : embed receiverID rule configSection t = .error stop) (m : Str → Tree) :
    t.at_ [receiversKey, receiverID.string] ≠ .node m := by
  intro hm
  have happ := MapTree.at_append t [receiversKey] [receiverID.string]
  rw [singleton_append, hm] at happ
  unfold embed at h
  split at h
  · cases h
  · rename_i hno
    cases hroot : t.at_ [receiversKey] with
    | node receivers => exact hno receivers m hroot hm
    | _ => simp [hroot] at happ

theorem overlay_eq {receiverID observerID : ComponentID} {entry : Tree} {rule : Str} {configSection : Option Tree}
    (he : entries receiverID observerID = some entry) (hr : ruleOf entry = .ok rule)
    (hc : configOf entry = .ok configSection) (k : Str) : overlay entries receiverID observerID k =
      if k = "config" then configSection else if k = "rule" ∧ rule ≠ [] then some (.leaf (.str rule)) else none := by
  have hne : "rule".toList ≠ "config".toList := by decide
  rw [overlay, he, Option.bind_some]
  unfold ruleOf at hr
  unfold configOf at hc
  generalize "rule".toList = ruleKey at *
  generalize "config".toList = configKey at *
  by_cases hk : k = configKey
  · subst hk
    rw [if_pos rfl]
    split at hc <;> cases hc <;> simp_all
  · rw [if_neg hk]
    by_cases hk' : k = ruleKey
    · subst hk'
      split at hr <;> cases hr <;> simp_all
    · split <;> simp_all

theorem readConfig_formedFor {receiverID observerID : ComponentID} {receiverConfig : Str} {rCfg : Tree}
    (h : (readConfig entries decode receiverID observerID receiverConfig).1.getLast? = some rCfg) :
    FormedFor entries decode receiverID observerID receiverConfig rCfg := by
  unfold readConfig at h
  cases hen : entries receiverID observerID with
  | none =>
    by_cases hem : receiverConfig = []
    · simp [hen, hem] at h
    cases hdec : decode receiverConfig with
    | error e => simp [hen, hem, hdec] at h
    | ok t =>
      cases hemb : embed receiverID [] none t with
      | error stop => simp [hen, hem, hdec, hemb, Except.map] at h
      | ok t' =>
        obtain rfl : t' = rCfg := by simpa [hen, hem, hdec, hemb, Except.map] using h
        refine .inl ⟨t, hem, hdec, fun k q => ?_⟩
        have hrule : ¬ (k = "rule" ∧ ([] : Str) ≠ []) := fun h => h.2 rfl
        rw [embed_at hemb, if_neg hrule, ite_self, overlay, hen, Option.bind_none]
  | some entry =>
    cases hru : ruleOf entry with
    | error stop => simp [hen, hru] at h
    | ok rule =>
      cases hc : configOf entry with
      | error stop => simp [hen, hru, hc] at h
      | ok configSection =>
        by_cases hem : receiverConfig = []
        · obtain rfl : entry = rCfg := by simpa [hen, hru, hc, hem] using h
          exact .inr ⟨hen, .inl hem⟩
        cases hdec : decode receiverConfig with
        | error e =>
          obtain rfl : entry = rCfg := by simpa [hen, hru, hc, hem, hdec] using h
          exact .inr ⟨hen, .inr fun t m ht => by simp [hdec] at ht⟩
        | ok t =>
          cases hemb : embed receiverID rule configSection t with
          | error stop =>
            obtain rfl : entry = rCfg := by simpa [hen, hru, hc, hem, hdec, hemb, Except.map] using h
            exact .inr ⟨hen, .inr fun t' m ht => by
              obtain rfl : t = t' := by simpa [hdec] using ht
              exact embed_error hemb m⟩
          | ok t' =>
            obtain rfl : t' = rCfg := by simpa [hen, hru, hc, hem, hdec, hemb, Except.map] using h
            refine .inl ⟨t, hem, hdec, fun k q => ?_⟩
            rw [embed_at hemb, overlay_eq entries hen hru hc]

theorem validType_of_identify {rlog : ResourceLogs} {receiverID observerID : ComponentID}
    (h : identify rlog = .ids receiverID observerID) : validType receiverID.type := by
  unfold identify at h
  split at h
  · cases h
  · dsimp only at h
    split at h
    · cases h
    · split at h
      · cases h
        assumption
      · cases h

theorem mem_resourceEffects {rlog : ResourceLogs} {e : Effect} (he : e ∈ (resourceEffects entries decode rlog).1) :
    identify rlog = .ids e.receiverID e.observerID ∧ e.rCfgs =
      (readConfig entries decode e.receiverID e.observerID (rlog.receiverConfig.getD [])).1 := by
  unfold resourceEffects at he
  split at he
  · cases he
  · cases he
  · split at he
    all_goals
      cases mem_singleton.mp he
      simp_all

theorem mem_batchEffects {rlogs : List ResourceLogs} {e : Effect} (he : e ∈ (batchEffects entries decode rlogs).1) :
    ∃ rlog ∈ rlogs, e ∈ (resourceEffects entries decode rlog).1 := by
  induction rlogs with
  | nil => cases he
  | cons rlog rlogs ih =>
    unfold batchEffects at he
    split at he
    · rename_i hres
      rcases mem_append.mp he with he | he
      · exact ⟨rlog, by simp, by rwa [hres]⟩
      · obtain ⟨rlog', hm, he⟩ := ih he
        exact ⟨rlog', mem_cons_of_mem _ hm, he⟩
    · rename_i hres
      exact ⟨rlog, by simp, by rwa [hres]⟩

theorem mem_effects {lds : List (List ResourceLogs)} {e : Effect} (he : e ∈ effects entries decode lds) :
    ∃ rlog ∈ lds.flatten, e ∈ (resourceEffects entries decode rlog).1 := by
  induction lds with
  | nil => cases he
  | cons ld lds ih =>
    have hs : e ∈ (batchEffects entries decode ld).1 ∨ e ∈ effects entries decode lds := by
      unfold effects at he
      split at he
      · exact .inr he
      · split at he
        · rename_i hb
          exact .inl (by rwa [hb])
        · rename_i hb
          rw [hb]
          exact mem_append.mp he
    rw [flatten_cons]
    rcases hs with he | he
    · obtain ⟨rlog, hm, he⟩ := mem_batchEffects entries decode he
      exact ⟨rlog, mem_append_left _ hm, he⟩
    · obtain ⟨rlog, hm, he⟩ := ih he
      exact ⟨rlog, mem_append_right _ hm, he⟩

end

theorem consumeScopes_keys (receiverID observerID : ComponentID) (scopeLogs : List (List (Option Str)))
    (d : Statuses) :
    ((keys d.discoveredReceivers).Nodup →
      (keys (consumeScopes receiverID observerID scopeLogs d).discoveredReceivers).Nodup) ∧
    ∀ r ∈ keys (consumeScopes receiverID observerID scopeLogs d).discoveredReceivers,
      r = receiverID ∨ r ∈ keys d.discoveredReceivers := by
  refine consumeScopes_related (fun d d' => ((keys d.discoveredReceivers).Nodup →
      (keys d'.discoveredReceivers).Nodup) ∧
    ∀ r ∈ keys d'.discoveredReceivers, r = receiverID ∨ r ∈ keys d.discoveredReceivers)
    (fun d => ⟨id, fun r hr => Or.inr hr⟩) ?_ ?_ scopeLogs d
  · intro a b c hab hbc
    refine ⟨fun h => hbc.1 (hab.1 h), fun r hr => ?_⟩
    rcases hbc.2 r hr with h | h
    · exact Or.inl h
    · exact hab.2 r h
  · intro cr co d a
    unfold consumeRecord
    split
    · split
      · exact ⟨id, fun r hr => Or.inr hr⟩
      · exact ⟨nodup_keys_put _ _, fun r hr => (mem_keys_put _ _ _ _).mp hr⟩
    · exact ⟨id, fun r hr => Or.inr hr⟩

theorem discoveredReceivers_keys (es : List Effect) : (keys (after es).statuses.discoveredReceivers).Nodup ∧
    ∀ r ∈ keys (after es).statuses.discoveredReceivers, ∃ e ∈ es, e.receiverID = r := by
  induction es using reverseRecOn with
  | nil => exact ⟨by simp [after, newDiscoverer, Lib.keys], by simp [after, newDiscoverer, Lib.keys]⟩
  | append_singleton es e ih =>
    rw [after_append]
    obtain ⟨hn, hk⟩ := consumeScopes_keys e.receiverID e.observerID e.scopeLogs (after es).statuses
    refine ⟨hn ih.1, fun r hr => ?_⟩
    rcases hk r hr with rfl | h
    · exact ⟨e, by simp, rfl⟩
    · obtain ⟨e', he', hr'⟩ := ih.2 r h
      exact ⟨e', mem_append_left _ he', hr'⟩

section
variable (entries : ComponentID → ComponentID → Option Tree) (decode : Str → Except Str Tree)

theorem nodup_receiverNames (lds : List (List ResourceLogs)) :
    ((after (effects entries decode lds)).statuses.discoveredReceivers.map fun r => r.1.string).Nodup := by
  obtain ⟨hn, hk⟩ := discoveredReceivers_keys (effects entries decode lds)
  have hty (r) (hr : r ∈ keys (after (effects entries decode lds)).statuses.discoveredReceivers) :
      validType r.type := by
    obtain ⟨e, he, rfl⟩ := hk r hr
    obtain ⟨rlog, -, he⟩ := mem_effects entries decode he
    exact validType_of_identify (mem_resourceEffects entries decode he).1
  have hinj := hn.map_on fun a ha b hb => ComponentID.string_injective _ _ (hty a ha) (hty b hb)
  simpa [Lib.keys, Function.comp_def] using hinj

/-- After a run whose steps all keep the configuration, what is emitted was stored by a resource of an observer with a
success. -/
theorem emitted_of_success (lds : List (List ResourceLogs)) (d : Discoverer)
    (hd : d = consumeAll entries decode lds newDiscoverer)
    (hsteps : ∀ es e, es ++ [e] <+: effects entries decode lds → KeepsConfig es e) (receiverID : ComponentID)
    (rCfg : Tree) (hsucc : statusOf receiverID d.statuses = (Status.successful : Status))
    (hcfg : find receiverID d.discoveredConfig = some rCfg) :
    ∃ observerID, SuccessSeen receiverID observerID (effects entries decode lds) ∧
      (∃ rlog ∈ lds.flatten, identify rlog = .ids receiverID observerID ∧
        FormedFor entries decode receiverID observerID (rlog.receiverConfig.getD []) rCfg) ∧
      ∀ discoveryObservers receivers observers, receivers.Perm d.statuses.discoveredReceivers →
        (∀ r t, find r d.discoveredConfig = some t → OnlyOwn r t) →
        ∀ q, (discoveryConfig discoveryObservers d.discoveredConfig receivers observers).at_
            (emittedPath receiverID q) = rCfg.at_ (receiversKey :: receiverID.string :: q) := by
  obtain rfl : d = after (effects entries decode lds) := hd.trans (consumeAll_eq entries decode lds newDiscoverer)
  have hw := forall_prefix_of_steps WriterSucceeded KeepsConfig _
    (fun _ _ _ h => by simp [lastWriter] at h) writerSucceeded_append hsteps _ prefix_rfl
  obtain ⟨e, he, rfl, ho, hlast⟩ := stored_of_lastWriter _ receiverID rCfg hcfg
  refine ⟨e.observerID, hw e.receiverID e.observerID hsucc ho, ?_, ?_⟩
  · obtain ⟨rlog, hrl, he⟩ := mem_effects entries decode he
    obtain ⟨hid, hr⟩ := mem_resourceEffects entries decode he
    exact ⟨rlog, hrl, hid, readConfig_formedFor entries decode (hr ▸ hlast)⟩
  · intro discoveryObservers receivers observers hpe hown q
    have hs : (receivers.map fun receiver => receiver.1.string).Nodup :=
      (hpe.map _).nodup_iff.mpr (nodup_receiverNames entries decode lds)
    have hm : (e.receiverID, Status.successful) ∈ receivers :=
      hpe.mem_iff.mpr (find_mem _ _ _ hsucc)
    exact discoveryConfig_at discoveryObservers _ receivers observers e.receiverID q rCfg hs
      (fun receiver _ t ht => hown receiver.1 t ht) hm hcfg

end

def hostObserver : ComponentID := ⟨"host_observer", []⟩

def dockerObserver : ComponentID := ⟨"docker_observer", []⟩

def redis : ComponentID := ⟨"redis", []⟩

def ruleEntries : ComponentID → ComponentID → Option Tree := fun _ observerID =>
  some (.single "rule" (.leaf (.str observerID.type)))

def redisEmbedded : Str → Except Str Tree := fun _ =>
  .ok (.single receiversKey (.single "redis" emptyMap))

def redisReport (observerID : ComponentID) (status : Str) : List ResourceLogs :=
  [⟨none, some "redis", some "x", some observerID.string, [[some status]]⟩]

def redisEffect (observerID : ComponentID) (status : Str) : Effect :=
  ⟨redis, observerID, (readConfig ruleEntries redisEmbedded redis observerID "x").1, [[some status]]⟩

def hostSucceeds : List (List ResourceLogs) :=
  [redisReport dockerObserver "failed", redisReport hostObserver "successful"]

def discovered (lds : List (List ResourceLogs)) : Discoverer := consumeAll ruleEntries redisEmbedded lds newDiscoverer

def leafText : Tree → Option Str
  | .leaf (.str s) => some s
  | _ => none

theorem hostSucceeds_steps (es : List Effect) (e : Effect)
    (h : es ++ [e] <+: effects ruleEntries redisEmbedded hostSucceeds) : KeepsConfig es e := by
  have he : effects ruleEntries redisEmbedded hostSucceeds =
      [redisEffect dockerObserver "failed", redisEffect hostObserver "successful"] := rfl
  have hwr (o status) : (redisEffect o status).rCfgs ≠ [] := ne_nil_of_length_pos (Nat.succ_pos 1)
  rw [he] at h
  match es with
  | [] =>
    obtain rfl : e = _ := by simpa using h
    exact ⟨fun _ hs => absurd hs (by decide +kernel), fun hw => absurd hw (hwr _ _)⟩
  | [e'] =>
    simp only [cons_append, nil_append, cons_prefix_cons] at h
    obtain ⟨rfl, rfl, _⟩ := h
    exact ⟨fun _ hs => absurd hs (by decide +kernel), fun hw => absurd hw (hwr _ _)⟩
  | _ :: _ :: es => simp at h

def redisConfig (observerID : ComponentID) : Tree :=
  (MapTree.single receiversKey (.single redis.string emptyMap)).set receiversKey
    ((MapTree.single redis.string emptyMap).set redis.string (emptyMap.set "rule" (.leaf (.str observerID.type))))

theorem onlyOwn_redisConfig (observerID : ComponentID) : OnlyOwn redis (redisConfig observerID) := by
  intro name hne
  simp [redisConfig, MapTree.set, MapTree.single, hne]

/-- Redis is emitted with the rule of the host observer. -/
theorem emitted_of_success_hostSucceeds :
    leafText ((discoveryConfig (fun _ => none) (discovered hostSucceeds).discoveredConfig
      (discovered hostSucceeds).statuses.discoveredReceivers []).at_ (emittedPath redis ["rule".toList])) =
        some "host_observer".toList := by
  have hs : statusOf redis (discovered hostSucceeds).statuses = (Status.successful : Status) := by decide +kernel
  have hd : (discovered hostSucceeds).discoveredConfig = [(redis, redisConfig hostObserver)] := rfl
  obtain ⟨_, _, _, hem⟩ := emitted_of_success ruleEntries redisEmbedded hostSucceeds (discovered hostSucceeds) rfl
    hostSucceeds_steps redis (redisConfig hostObserver) hs (by simp [hd, find])
  rw [hem _ _ _ (.refl _) (fun r t ht => ?_) ["rule"]]
  · rfl
  · obtain ⟨rfl, rfl⟩ : r = redis ∧ t = redisConfig hostObserver := by simpa [hd] using find_mem _ _ _ ht
    exact onlyOwn_redisConfig _

def dockerFailsLast : List (List ResourceLogs) :=
  [redisReport hostObserver "successful", redisReport dockerObserver "failed"]

/-- Redis is emitted with the rule of the docker observer, which never saw it succeed. -/
theorem emitted_of_failure :
    statusOf redis (discovered dockerFailsLast).statuses = (Status.successful : Status) ∧
    leafText ((discoveryConfig (fun _ => none) (discovered dockerFailsLast).discoveredConfig
      (discovered dockerFailsLast).statuses.discoveredReceivers
      (discovered dockerFailsLast).statuses.discoveredObservers).at_ (emittedPath redis ["rule".toList])) =
        some "docker_observer".toList ∧
    (ruleEntries redis hostObserver).bind (fun t => leafText (t.at_ ["rule".toList])) = some "host_observer".toList ∧
    ∀ o, SuccessSeen redis o (effects ruleEntries redisEmbedded dockerFailsLast) → o = hostObserver := by
  refine ⟨by decide +kernel, by decide +kernel, by decide +kernel, ?_⟩
  have hef : effects ruleEntries redisEmbedded dockerFailsLast =
      [redisEffect hostObserver "successful", redisEffect dockerObserver "failed"] := rfl
  rintro o ⟨e, he, _, ho, hs⟩
  rw [hef] at he
  rcases mem_cons.mp he with rfl | he
  · exact ho.symm
  · obtain rfl : e = _ := by simpa using he
    exact absurd hs (by decide +kernel)

end Collector.Discovery
