import Collector.Component
import Collector.Confmap.Leaves
import Collector.Confmap.Lookup
import Collector.Confmap.StringKeys
import Collector.Lib.Dict
import Collector.Lib.Layers

/-!
# The bundled discovery configuration

`mergeConfigWithBundle` of `internal/confmapprovider/discovery/config.go`. The maps of a bundled receiver are written in
place, so a nil one panics.
-/

namespace Collector.Discovery.Bundle

open Lib Confmap

structure ObserverEntry where
  enabled : Option Bool
  config : Fields
  entry : Fields

structure ReceiverToDiscoverEntry where
  /-- `none` is the nil map. -/
  rule : Option (Dict ComponentID Str)
  config : Option (Dict ComponentID Fields)
  enabled : Option Bool
  entry : Fields

structure Config where
  discoveryObservers : Dict ComponentID ObserverEntry
  receiversToDiscover : Dict ComponentID ReceiverToDiscoverEntry

def assignEach {V W : Type} (f : W → Option V → V) (src : Option (Dict ComponentID W)) :
    Option (Dict ComponentID V) → Option (Option (Dict ComponentID V))
  | some dst => ((src.getD Dict.empty).rangeSet (fun w v => some (f w v)) dst).map some
  | none => if (src.getD Dict.empty).entries.isEmpty then some none else none

section
variable (sprint : Value → Str)

def entryToStringMap (e : Fields) : Fields := intfaceKeysToStrings sprint e

def newConf (m : Fields) : Fields := newFromStringMap (intfaceKeysToStrings sprint m)

def mergeBlocks (bundled user : Fields) : Fields := toStringMap (merge (newConf sprint bundled) (newConf sprint user))

def mergeEnabled (bundled user : Option Bool) : Option Bool := if user.isSome then user else bundled

def mergeObserver (bundledObs userObs : ObserverEntry) : ObserverEntry where
  enabled := mergeEnabled bundledObs.enabled userObs.enabled
  config := mergeBlocks sprint (entryToStringMap sprint bundledObs.config) (entryToStringMap sprint userObs.config)
  entry := []

def mergeConfig (config : Fields) : Option Fields → Fields
  | some bundledConfig => mergeBlocks sprint bundledConfig config
  | none => config

def mergeReceiver (bundledRec userRec : ReceiverToDiscoverEntry) : Option ReceiverToDiscoverEntry := do
  let rule ← assignEach (fun rule _ => rule) userRec.rule bundledRec.rule
  let config ← assignEach (mergeConfig sprint) userRec.config bundledRec.config
  return {
    enabled := mergeEnabled bundledRec.enabled userRec.enabled
    rule := rule
    config := config
    entry := mergeBlocks sprint (entryToStringMap sprint bundledRec.entry) (entryToStringMap sprint userRec.entry) }

def mergeObserverOver (bundledObs : ObserverEntry) : Option ObserverEntry → Option ObserverEntry
  | none => some bundledObs
  | some userObs => some (mergeObserver sprint bundledObs userObs)

def mergeReceiverOver (bundledRec : ReceiverToDiscoverEntry) :
    Option ReceiverToDiscoverEntry → Option ReceiverToDiscoverEntry
  | none => some bundledRec
  | some userRec => mergeReceiver sprint bundledRec userRec

/-- What is in the user's configuration at the end. `none` is a panic. -/
def mergeConfigWithBundle (userCfg bundleCfg : Config) : Option Config := do
  let observers ← bundleCfg.discoveryObservers.rangeSet (mergeObserverOver sprint) userCfg.discoveryObservers
  let receivers ← bundleCfg.receiversToDiscover.rangeSet (mergeReceiverOver sprint) userCfg.receiversToDiscover
  return ⟨observers, receivers⟩

/-! ## What the user has set -/

def blockTree (block : Fields) : MapTree Str Value := (Value.map (intfaceKeysToStrings sprint block)).tree

def Sets (block : Fields) (p : List Str) : Prop :=
  (blockTree sprint block).at_ p ≠ .absent ∨ ∃ q l, q <+: p ∧ (blockTree sprint block).at_ q = .leaf l

def Wins (user bundled merged : Fields) : Prop :=
  ∀ p, (Sets sprint user p → (blockTree sprint merged).leafAt p = (blockTree sprint user).leafAt p) ∧
    (¬ Sets sprint user p → (blockTree sprint merged).leafAt p = (blockTree sprint bundled).leafAt p)

end

inductive Joined {E : Type} (both : E → E → E → Prop) : Option E → Option E → Option E → Prop
  | neither : Joined both none none none
  | user (e : E) : Joined both (some e) none (some e)
  | bundled (e : E) : Joined both none (some e) (some e)
  | both {user bundled merged : E} (h : both user bundled merged) : Joined both (some user) (some bundled) (some merged)

def ReceiverToDiscoverEntry.ruleFor (e : ReceiverToDiscoverEntry) (cid : ComponentID) : Option Str :=
  e.rule.bind fun m => m.get cid

def ReceiverToDiscoverEntry.configFor (e : ReceiverToDiscoverEntry) (obs : ComponentID) : Option Fields :=
  e.config.bind fun m => m.get obs

section
variable (sprint : Value → Str)

structure ObserverMerged (user bundled merged : ObserverEntry) : Prop where
  enabled : merged.enabled = user.enabled.or bundled.enabled
  config : Wins sprint user.config bundled.config merged.config

structure ReceiverMerged (user bundled merged : ReceiverToDiscoverEntry) : Prop where
  enabled : merged.enabled = user.enabled.or bundled.enabled
  rule : ∀ cid, merged.ruleFor cid = (user.ruleFor cid).or (bundled.ruleFor cid)
  config : ∀ obs, Joined (Wins sprint) (user.configFor obs) (bundled.configFor obs) (merged.configFor obs)
  entry : Wins sprint user.entry bundled.entry merged.entry

structure UserWins (user bundled merged : Config) : Prop where
  observers : ∀ id, Joined (ObserverMerged sprint) (user.discoveryObservers.get id) (bundled.discoveryObservers.get id)
    (merged.discoveryObservers.get id)
  receivers : ∀ id, Joined (ReceiverMerged sprint) (user.receiversToDiscover.get id)
    (bundled.receiversToDiscover.get id) (merged.receiversToDiscover.get id)

structure CleanBlocks (cfg : Config) : Prop where
  observers : ∀ id e, cfg.discoveryObservers.get id = some e → Clean (intfaceKeysToStrings sprint e.config)
  receivers : ∀ id e, cfg.receiversToDiscover.get id = some e → Clean (intfaceKeysToStrings sprint e.entry)
  configs : ∀ id e, cfg.receiversToDiscover.get id = some e → ∀ obs block, e.configFor obs = some block →
    Clean (intfaceKeysToStrings sprint block)

end

def NonNil (cfg : Config) : Prop :=
  ∀ id e, cfg.receiversToDiscover.get id = some e → e.rule.isSome = true ∧ e.config.isSome = true

/-! ## Blocks -/

section
variable {sprint : Value → Str}

theorem sets_iff {block : Fields} {p : List Str} : Sets sprint block p ↔ ¬ (blockTree sprint block).Avoids p := by
  rw [Sets, MapTree.avoids_iff, not_and_or]
  refine or_congr_right ?_
  simp only [not_forall, not_not, exists_prop]

variable {bundled user : Fields}

section

variable (hb : Clean (intfaceKeysToStrings sprint bundled)) (hu : Clean (intfaceKeysToStrings sprint user))
include hb hu

theorem mergeBlocks_eq :
    mergeBlocks sprint bundled user =
      mergeInto (intfaceKeysToStrings sprint user) (intfaceKeysToStrings sprint bundled) := by
  have hm := hu.mergeInto hb
  rw [mergeBlocks, merge, newConf, newConf, newFromStringMap_eq hu, newFromStringMap_eq hb]
  exact toStringMap_eq hm.nodup hm.distinct hm.good

theorem blockTree_mergeBlocks :
    blockTree sprint (mergeBlocks sprint bundled user) =
      (blockTree sprint bundled).merge (blockTree sprint user) := by
  have hc : Converted sprint
      (mergeInto (intfaceKeysToStrings sprint user) (intfaceKeysToStrings sprint bundled)) :=
    (converted_intfaceKeysToStrings user).mergeInto (converted_intfaceKeysToStrings bundled)
  rw [mergeBlocks_eq hb hu, blockTree, hc, blockTree, blockTree, tree_map, tree_map, tree_map,
    MapTree.node_merge_node]
  exact congrArg MapTree.node (funext fun k => fieldsTree_mergeInto _ _ hu.nodup hu.distinct k)

theorem wins_mergeBlocks :
    Wins sprint user bundled (mergeBlocks sprint bundled user) := by
  intro p
  rw [sets_iff, not_not, blockTree_mergeBlocks hb hu]
  constructor
  · intro hset
    exact MapTree.leafAt_merge hset
  · intro hset
    rw [MapTree.leafAt, MapTree.at_merge_left hset, ← MapTree.leafAt]

theorem wins_mergeBlocks_entry :
    Wins sprint user bundled (mergeBlocks sprint (entryToStringMap sprint bundled) (entryToStringMap sprint user)) := by
  have hc : ∀ m, intfaceKeysToStrings sprint (entryToStringMap sprint m) = intfaceKeysToStrings sprint m :=
    converted_intfaceKeysToStrings
  have hw : Wins sprint (entryToStringMap sprint user) (entryToStringMap sprint bundled)
      (mergeBlocks sprint (entryToStringMap sprint bundled) (entryToStringMap sprint user)) :=
    wins_mergeBlocks (by rwa [hc]) (by rwa [hc])
  unfold Wins Sets blockTree at hw ⊢
  rwa [hc, hc] at hw

end

theorem mergeEnabled_eq (bundled user : Option Bool) : mergeEnabled bundled user = user.or bundled := by
  cases user <;> rfl

theorem exists_assignEach {V W : Type} (f : W → Option V → V) (src : Option (Dict ComponentID W))
    {dst : Option (Dict ComponentID V)} (hdst : dst.isSome = true) :
    ∃ m, assignEach f src dst = some (some m) ∧
      ∀ k, m.get k = (src.bind fun s => s.get k).elim (dst.bind fun d => d.get k)
        fun w => some (f w (dst.bind fun d => d.get k)) := by
  obtain ⟨d, rfl⟩ := Option.isSome_iff_exists.mp hdst
  obtain ⟨m, hm, hget⟩ := Dict.exists_rangeSet (fun w v => some (f w v)) (src.getD Dict.empty) d fun _ _ _ => rfl
  refine ⟨m, ?_, fun k => ?_⟩
  · rw [assignEach, hm, Option.map_some]
  · rw [hget]
    cases src <;> rfl

/-! ## Entries -/

theorem Joined.over {E : Type} {both : E → E → E → Prop} {f : E → Option E → Option E} {user bundled : Option E}
    (hn : ∀ b, f b none = some b)
    (hs : ∀ b u, bundled = some b → user = some u → ∃ merged, f b (some u) = some merged ∧ both u b merged) :
    Joined both user bundled (bundled.elim user fun b => f b user) := by
  cases bundled with
  | none =>
    cases user with
    | none => exact .neither
    | some u => exact .user u
  | some b =>
    cases user with
    | none =>
      rw [Option.elim_some, hn]
      exact .bundled b
    | some u =>
      obtain ⟨merged, hm, hb⟩ := hs b u rfl rfl
      rw [Option.elim_some, hm]
      exact .both hb

theorem exists_mergeReceiver {bundled user : ReceiverToDiscoverEntry} (hru : bundled.rule.isSome = true)
    (hco : bundled.config.isSome = true) (hbu : Clean (intfaceKeysToStrings sprint bundled.entry))
    (hus : Clean (intfaceKeysToStrings sprint user.entry))
    (hbb : ∀ obs block, bundled.configFor obs = some block → Clean (intfaceKeysToStrings sprint block))
    (hub : ∀ obs block, user.configFor obs = some block → Clean (intfaceKeysToStrings sprint block)) :
    ∃ merged, mergeReceiver sprint bundled user = some merged ∧ ReceiverMerged sprint user bundled merged := by
  obtain ⟨rule, hr, hg⟩ := exists_assignEach (fun rule _ => rule) user.rule hru
  obtain ⟨config, hc, hge⟩ := exists_assignEach (mergeConfig sprint) user.config hco
  refine ⟨_, by rw [mergeReceiver, hr, hc]; rfl, ⟨mergeEnabled_eq _ _, fun cid => ?_, fun obs => ?_,
    wins_mergeBlocks_entry hbu hus⟩⟩
  · change rule.get cid = (user.ruleFor cid).or (bundled.ruleFor cid)
    rw [hg]
    change (user.ruleFor cid).elim (bundled.ruleFor cid) _ = _
    cases user.ruleFor cid <;> rfl
  · change Joined _ _ _ (config.get obs)
    rw [hge]
    change Joined _ _ _ ((user.configFor obs).elim (bundled.configFor obs) _)
    cases hu : user.configFor obs with
    | none =>
      cases bundled.configFor obs with
      | none => exact .neither
      | some b => exact .bundled b
    | some u =>
      change Joined _ _ _ (some (mergeConfig sprint u (bundled.configFor obs)))
      cases hb : bundled.configFor obs with
      | none => exact .user u
      | some b => exact .both (wins_mergeBlocks (hbb obs b hb) (hub obs u hu))

/-- The user's configuration wins over the bundled one, entry by entry. -/
theorem mergeConfigWithBundle_userWins {userCfg bundleCfg : Config} (hnil : NonNil bundleCfg)
    (huser : CleanBlocks sprint userCfg) (hbundle : CleanBlocks sprint bundleCfg) :
    ∃ merged, mergeConfigWithBundle sprint userCfg bundleCfg = some merged ∧
      UserWins sprint userCfg bundleCfg merged := by
  have hre : ∀ id b u, bundleCfg.receiversToDiscover.get id = some b →
      userCfg.receiversToDiscover.get id = some u →
      ∃ merged, mergeReceiver sprint b u = some merged ∧ ReceiverMerged sprint u b merged := by
    intro id b u hb hu
    exact exists_mergeReceiver (hnil id b hb).1 (hnil id b hb).2 (hbundle.receivers id b hb) (huser.receivers id u hu)
      (hbundle.configs id b hb) (huser.configs id u hu)
  obtain ⟨observers, ho, hg⟩ := Dict.exists_rangeSet (mergeObserverOver sprint) bundleCfg.discoveryObservers
    userCfg.discoveryObservers fun id b _ => by
      cases userCfg.discoveryObservers.get id <;> rfl
  obtain ⟨receivers, hr, hge⟩ := Dict.exists_rangeSet (mergeReceiverOver sprint) bundleCfg.receiversToDiscover
    userCfg.receiversToDiscover fun id b hb => by
      cases hu : userCfg.receiversToDiscover.get id with
      | none => rfl
      | some u =>
        obtain ⟨merged, hm, -⟩ := hre id b u hb hu
        exact Option.isSome_of_eq_some hm
  refine ⟨⟨observers, receivers⟩, by rw [mergeConfigWithBundle, ho, hr]; rfl, fun id => ?_, fun id => ?_⟩
  · change Joined _ _ _ (observers.get id)
    rw [hg]
    refine Joined.over (fun _ => rfl) fun b u hb hu => ⟨_, rfl, mergeEnabled_eq _ _, ?_⟩
    exact wins_mergeBlocks_entry (hbundle.observers id b hb) (huser.observers id u hu)
  · change Joined _ _ _ (receivers.get id)
    rw [hge]
    exact Joined.over (fun _ => rfl) fun b u hb hu => hre id b u hb hu

end

theorem cleanBlocks_of_plain {sprint : Value → Str} {cfg : Config}
    (ho : ∀ e ∈ cfg.discoveryObservers.entries, plain (.map (intfaceKeysToStrings sprint e.2.config)) = true)
    (hr : ∀ e ∈ cfg.receiversToDiscover.entries,
      plain (.map (intfaceKeysToStrings sprint e.2.entry)) = true ∧
        ∀ b ∈ (e.2.config.getD Dict.empty).entries, plain (.map (intfaceKeysToStrings sprint b.2)) = true) :
    CleanBlocks sprint cfg := by
  refine ⟨Dict.forall_get fun e he => clean_of_plain (ho e he),
    Dict.forall_get fun e he => clean_of_plain (hr e he).1, Dict.forall_get fun e he obs block hbl => ?_⟩
  obtain ⟨m, hm, hget⟩ := Option.bind_eq_some_iff.mp hbl
  have hb := (hr e he).2
  rw [hm, Option.getD_some] at hb
  exact clean_of_plain (hb _ (find_mem obs block m.entries hget))

def redisID : ComponentID := ⟨"redis", []⟩

def dockerID : ComponentID := ⟨"docker_observer", []⟩

def bundledRedis : Config where
  discoveryObservers := ⟨[(dockerID, ⟨some true, [("endpoint", .str "unix:///var/run")], []⟩)], by decide⟩
  receiversToDiscover := ⟨[(redisID, {
    rule := some ⟨[(dockerID, "type == \"container\"")], by decide⟩
    config := some ⟨[(dockerID, [("tls", .imap [(.str "insecure", .bool true)]),
      ("username", .str "default")])], by decide⟩
    enabled := some true
    entry := [] })], by decide⟩

def userRedis : Config where
  discoveryObservers := ⟨[(dockerID, ⟨none, [("timeout", .int 5)], []⟩)], by decide⟩
  receiversToDiscover := ⟨[(redisID, {
    rule := none
    config := some ⟨[(dockerID, [("tls", .imap [(.str "insecure", .bool false)])])], by decide⟩
    enabled := some false
    entry := [] })], by decide⟩

theorem userWins_redis : NonNil bundledRedis ∧ ∃ merged,
    mergeConfigWithBundle (fun _ => []) userRedis bundledRedis = some merged ∧
      UserWins (fun _ => []) userRedis bundledRedis merged := by
  have hnil : NonNil bundledRedis := Dict.forall_get (by decide)
  exact ⟨hnil, mergeConfigWithBundle_userWins hnil (cleanBlocks_of_plain (by decide) (by decide))
    (cleanBlocks_of_plain (by decide) (by decide))⟩

end Collector.Discovery.Bundle
