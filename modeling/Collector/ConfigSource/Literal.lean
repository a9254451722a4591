import Collector.Confmap.Flatten
import Collector.ConfigSource.Loop

/-!
# Resolving a configuration without a `$`

`resolveConfigValue` makes a `map[any]any` of every map in a list. `IntfaceKeysToStrings` turns it back, but not in a
list that is an element of a list.
-/

namespace Collector.ConfigSource

open Lib Confmap List

variable {m conf : Fields} {v : Value}

/-! ## Literal values -/

mutual
/-- A value of a YAML document with string keys whose strings hold no `$`. -/
def Literal : Value → Prop
  | .str s => '$' ∉ s
  | .bytes _ => False
  | .imap _ => False
  | .list vs => LiteralElems vs
  | .map m => (keys m).Nodup ∧ LiteralFields m
  | _ => True

def LiteralElems : List Value → Prop
  | [] => True
  | v :: vs => Literal v ∧ LiteralElems vs

def LiteralFields : Fields → Prop
  | [] => True
  | (_, v) :: m => Literal v ∧ LiteralFields m
end

mutual
def noMap : Value → Bool
  | .map _ => false
  | .list vs => noMapElems vs
  | _ => true

def noMapElems : List Value → Bool
  | [] => true
  | v :: vs => noMap v && noMapElems vs
end

mutual
/-- No list that is an element of a list holds a map, at any depth. -/
def noMapInNestedList : Value → Bool
  | .list vs => noMapInNestedListElems vs
  | .map m => noMapInNestedListFields m
  | _ => true

def noMapInNestedListElems : List Value → Bool
  | [] => true
  | .list ws :: vs => noMapElems ws && noMapInNestedListElems vs
  | .map m :: vs => noMapInNestedListFields m && noMapInNestedListElems vs
  | _ :: vs => noMapInNestedListElems vs

def noMapInNestedListFields : Fields → Bool
  | [] => true
  | (_, v) :: m => noMapInNestedList v && noMapInNestedListFields m
end

/-! ## What comes out -/

mutual
def imapped : Value → Value
  | .list vs => .list (imappedElems vs)
  | .map m => .imap (imappedFields m)
  | v => v

def imappedElems : List Value → List Value
  | [] => []
  | v :: vs => imapped v :: imappedElems vs

def imappedFields : Fields → List (Value × Value)
  | [] => []
  | (k, v) :: m => (.str k, imapped v) :: imappedFields m
end

theorem resolveStringValue_literal (ext : Externals) (srcs : Sources) (fuel : Nat) {s : Str}
    (h : History) (hlit : '$' ∉ s) :
    resolveStringValue ext srcs fuel s h = (⟨.str s, none, none⟩, h) := by
  cases fuel with
  | zero => exact resolveStringLoop_end hlit
  | succ fuel => exact resolveStringLoop_end hlit

theorem literalElems_iff (vs : List Value) : LiteralElems vs ↔ ∀ v ∈ vs, Literal v := by
  induction vs with
  | nil => simp [LiteralElems]
  | cons v vs ih => rw [LiteralElems, ih, forall_mem_cons]

theorem literalFields_iff (m : Fields) : LiteralFields m ↔ ∀ e ∈ m, Literal e.2 := by
  induction m with
  | nil => simp [LiteralFields]
  | cons e m ih => rw [LiteralFields, ih, forall_mem_cons]

theorem imappedElems_eq (vs : List Value) : imappedElems vs = vs.map imapped := by
  induction vs with
  | nil => rw [imappedElems, map_nil]
  | cons v vs ih => rw [imappedElems, ih, map_cons]

theorem imappedFields_eq (m : Fields) : imappedFields m = m.map fun e => (.str e.1, imapped e.2) := by
  induction m with
  | nil => rw [imappedFields, map_nil]
  | cons e m ih => rw [imappedFields, ih, map_cons]

section
variable {resolveString : ResolveString} (hstr : ∀ s h, '$' ∉ s → resolveString s h = (⟨.str s, none, none⟩, h))

theorem resolveEach_literal {ι γ : Type} {value : ι → Value} (add : List γ → ι → Value → List γ) {xs : List ι}
    {h : History} (hval : ∀ x ∈ xs, resolveConfigValue resolveString (value x) h = (⟨imapped (value x), none, none⟩, h))
    (acc : List γ) : resolveEach resolveString value add xs acc [] h =
      (⟨xs.foldl (fun acc x => add acc x (imapped (value x))) acc, none, none⟩, h) := by
  induction xs generalizing acc with
  | nil => rfl
  | cons x xs ih =>
    rw [forall_mem_cons] at hval
    rw [resolveEach, hval.1]
    exact ih hval.2 _

include hstr

theorem resolveConfigValue_literal (v : Value) (h : History) (hlit : Literal v) :
    resolveConfigValue resolveString v h = (⟨imapped v, none, none⟩, h) := by
  induction v using Value.induct with
  | str s =>
    rw [Literal] at hlit
    rw [resolveConfigValue, hstr s h hlit, imapped]
    all_goals simp
  | list vs ih =>
    rw [Literal, literalElems_iff] at hlit
    rw [resolveConfigValue, resolveElems_eq, resolveEach_literal _ fun v hv => ih v hv (hlit v hv), imapped,
      imappedElems_eq, foldl_append_eq_append, nil_append, ← flatMap_def, ← map_eq_flatMap]
    rfl
  | map m ih =>
    rw [Literal, literalFields_iff] at hlit
    rw [resolveConfigValue, resolveFields_eq, resolveEach_literal _ fun e he => ih e he (hlit.2 e he), imapped,
      imappedFields_eq, foldl_append_eq_append, nil_append, ← flatMap_def, ← map_eq_flatMap]
    rfl
  | bytes _ | imap _ _ => rw [Literal] at hlit; exact hlit.elim
  | _ =>
    rw [resolveConfigValue, imapped]
    all_goals simp

end

section
variable (sprint : Value → Str)

def converted (v : Value) : Value := intfaceValue sprint (imapped v)

def convertedFields (m : Fields) : Fields := m.map fun e => (e.1, converted sprint e.2)

theorem convertedFields_cons (e : Str × Value) (m : Fields) :
    convertedFields sprint (e :: m) = (e.1, converted sprint e.2) :: convertedFields sprint m := rfl

theorem intfaceEntries_imapped (m acc : Fields) (hk : (keys m).Nodup) (hacc : ∀ k ∈ keys m, k ∉ keys acc) :
    intfaceEntries sprint (imappedFields m) acc = acc ++ convertedFields sprint m := by
  induction m generalizing acc with
  | nil => simp [imappedFields, intfaceEntries, convertedFields]
  | cons e m ih =>
    obtain ⟨k, v⟩ := e
    simp only [Lib.keys, map_cons, nodup_cons] at hk
    rw [imappedFields, intfaceEntries, sprintV, put_of_notMem k _ acc (hacc k (by simp [Lib.keys])), ih _ hk.2]
    · simp [convertedFields, converted]
    · exact notMem_keys_concat hk.1 hacc

theorem converted_map (m : Fields) (hk : (keys m).Nodup) :
    converted sprint (.map m) = .map (convertedFields sprint m) := by
  rw [converted, imapped, intfaceValue, intfaceEntries_imapped sprint m [] hk (by simp [Lib.keys])]
  rfl

theorem converted_list (vs : List Value) :
    converted sprint (.list vs) = .list (intfaceElems sprint (imappedElems vs)) := by
  rw [converted, imapped, intfaceValue]

theorem intfaceElem_imapped (v : Value) (hlit : Literal v) :
    (∃ vs, v = .list vs ∧ intfaceElem sprint (imapped v) = imapped v) ∨
    (∀ vs, v ≠ .list vs) ∧ intfaceElem sprint (imapped v) = converted sprint v := by
  match v with
  | .list vs =>
    refine Or.inl ⟨vs, rfl, ?_⟩
    rw [imapped, intfaceElem]
    all_goals simp
  | .map m => exact Or.inr ⟨by simp, by rw [converted, imapped, intfaceElem, intfaceValue]⟩
  | .bytes _ | .imap _ => rw [Literal] at hlit; exact hlit.elim
  | .str _ | .null | .bool _ | .int _ | .float _ =>
    refine Or.inr ⟨by simp, ?_⟩
    rw [converted, imapped, intfaceElem, intfaceValue]
    all_goals simp

/-! ## When it comes out as it went in -/

theorem noMapElems_iff (vs : List Value) : noMapElems vs ↔ ∀ v ∈ vs, noMap v := by
  induction vs with
  | nil => simp [noMapElems]
  | cons v vs ih => rw [noMapElems, Bool.and_eq_true, ih, forall_mem_cons]

theorem noMapInNestedListElems_iff (vs : List Value) : noMapInNestedListElems vs ↔ ∀ v ∈ vs,
    (∀ ws, v = .list ws → noMapElems ws) ∧ ((∀ ws, v ≠ .list ws) → noMapInNestedList v) := by
  induction vs with
  | nil => simp [noMapInNestedListElems]
  | cons v vs ih =>
    rw [forall_mem_cons, ← ih]
    match v with
    | .list ws => rw [noMapInNestedListElems]; simp
    | .map m => rw [noMapInNestedListElems, noMapInNestedList]; simp
    | .str _ | .null | .bool _ | .int _ | .float _ | .bytes _ | .imap _ =>
      rw [noMapInNestedListElems, noMapInNestedList]
      all_goals simp

theorem noMapInNestedListFields_iff (m : Fields) : noMapInNestedListFields m ↔ ∀ e ∈ m, noMapInNestedList e.2 := by
  induction m with
  | nil => simp [noMapInNestedListFields]
  | cons e m ih => rw [noMapInNestedListFields, Bool.and_eq_true, ih, forall_mem_cons]

theorem deep_imapped_iff (v : Value) : (imapped v).deep = v.deep ↔ noMap v := by
  induction v using Value.induct with
  | list vs ih =>
    rw [imapped, imappedElems_eq, deep_list_iff, noMap, noMapElems_iff, map_map, map_inj_left]
    exact forall₂_congr ih
  | map m _ =>
    rw [imapped, noMap]
    exact iff_of_false (deep_imap_ne_map _ _) Bool.false_ne_true
  | _ =>
    rw [imapped, noMap]
    all_goals simp

theorem deep_convertedFields_iff (hk : (keys m).Nodup) :
    (Value.map (convertedFields sprint m)).deep = (Value.map m).deep ↔
      ∀ e ∈ m, (converted sprint e.2).deep = e.2.deep := by
  rw [deep_map_iff]
  constructor
  · intro h e he
    have hf := h e.1
    rw [convertedFields, find_map_snd, find_of_mem hk he] at hf
    exact hf
  · intro h k
    rw [convertedFields, find_map_snd]
    cases hf : find k m with
    | none => rfl
    | some v => exact h _ (find_mem k v m hf)

theorem deep_converted_iff (v : Value) (hlit : Literal v) :
    (converted sprint v).deep = v.deep ↔ noMapInNestedList v := by
  induction v using Value.induct with
  | list vs ih =>
    rw [Literal, literalElems_iff] at hlit
    rw [converted_list, intfaceElems_eq, imappedElems_eq, deep_list_iff, noMapInNestedList,
      noMapInNestedListElems_iff, map_map, map_map, map_inj_left]
    refine forall₂_congr fun v hv => ?_
    rcases intfaceElem_imapped sprint v (hlit v hv) with ⟨ws, rfl, he⟩ | ⟨hne, he⟩
    · have hd := deep_imapped_iff (.list ws)
      rw [noMap] at hd
      simpa [he] using hd
    · simpa [he, hne] using ih v hv (hlit v hv)
  | map m ih =>
    rw [Literal, literalFields_iff] at hlit
    rw [converted_map sprint m hlit.1, deep_convertedFields_iff sprint hlit.1, noMapInNestedList,
      noMapInNestedListFields_iff]
    exact forall₂_congr fun e he => ih e he (hlit.2 e he)
  | bytes _ | imap _ _ => rw [Literal] at hlit; exact hlit.elim
  | _ =>
    rw [converted, imapped, intfaceValue, noMapInNestedList]
    all_goals simp

/-! ## The whole configuration -/

variable (k : Str)

theorem literal_put (hv : Literal v) (hm : Literal (.map m)) : Literal (.map (put k v m)) := by
  rw [Literal, literalFields_iff] at hm ⊢
  refine ⟨nodup_keys_put k v hm.1, fun e he => ?_⟩
  rcases mem_put he with rfl | he
  · exact hv
  · exact hm.2 e he

theorem literal_find {k : Str} (hm : Literal (.map m)) (hf : find k m = some v) : Literal v := by
  rw [Literal, literalFields_iff] at hm
  exact hm.2 _ (find_mem k v m hf)

theorem literal_nil : Literal (.map []) := by
  rw [Literal, LiteralFields]; simp [Lib.keys]

variable (p : List Str)

theorem literal_insertPath (v : Value) (m : Fields) (hv : Literal v)
    (hm : Literal (.map m)) : Literal (.map (insertPath p v m)) := by
  induction p, v, m using insertPath.induct with
  | case1 v m => simpa [insertPath] using hm
  | case2 k v m => rw [insertPath]; exact literal_put k hv hm
  | case3 k k' ks v m hf ih =>
    rw [insertPath, hf]
    exact literal_put k (ih hv literal_nil) hm
  | case4 k k' ks v m sub hf ih =>
    rw [insertPath, hf]
    exact literal_put k (ih hv (literal_find hm hf)) hm
  | case5 k k' ks v m w hw hf ih =>
    rw [insertPath_skip k k' ks v w m hf (fun sub h => hw sub h)]
    exact ih hv hm

theorem converted_ne_map (hlit : Literal v) (h : ∀ m, v ≠ .map m) (m : Fields) : converted sprint v ≠ .map m := by
  match v with
  | .list vs => rw [converted_list]; simp
  | .map m => exact absurd rfl (h m)
  | .bytes _ | .imap _ => rw [Literal] at hlit; exact hlit.elim
  | .str _ | .null | .bool _ | .int _ | .float _ =>
    rw [converted, imapped, intfaceValue]
    all_goals simp

theorem convertedFields_insertPath (v : Value) (m : Fields) (hv : Literal v) (hm : Literal (.map m)) :
    convertedFields sprint (insertPath p v m) = insertPath p (converted sprint v) (convertedFields sprint m) := by
  have hfi (k : Str) (m : Fields) : find k (convertedFields sprint m) = (find k m).map (converted sprint) :=
    find_map_snd _ k m
  have hput (k : Str) (v : Value) (m : Fields) : put k (converted sprint v) (convertedFields sprint m) =
      convertedFields sprint (put k v m) := put_map_snd _ k v m
  induction p, v, m using insertPath.induct with
  | case1 v m => rfl
  | case2 k v m => rw [insertPath, insertPath, hput]
  | case3 k k' ks v m hf ih =>
    have hsub := literal_insertPath (k' :: ks) v [] hv literal_nil
    rw [Literal] at hsub
    rw [insertPath, hf, insertPath, hfi, hf]
    simp only [Option.map_none]
    rw [← hput, converted_map sprint _ hsub.1, ih hv literal_nil]
    rfl
  | case4 k k' ks v m sub hf ih =>
    have hlit := literal_find hm hf
    have hsub := literal_insertPath (k' :: ks) v sub hv hlit
    rw [Literal] at hlit hsub
    rw [insertPath, hf, insertPath, hfi, hf]
    simp only [Option.map_some, converted_map sprint sub hlit.1]
    rw [← hput, converted_map sprint _ hsub.1, ih hv (literal_find hm hf)]
  | case5 k k' ks v m w hw hf ih =>
    have hne := converted_ne_map sprint (literal_find hm hf) (fun m h => hw m h)
    have hf' : find k (convertedFields sprint m) = some (converted sprint w) := by rw [hfi, hf]; rfl
    rw [insertPath_skip k k' ks v w m hf (fun sub h => hw sub h), insertPath_skip k k' ks _ _ _ hf' hne, ih hv hm]

theorem convertedFields_unflatten (flat acc : Fields) (hf : ∀ e ∈ flat, Literal e.2) (hacc : Literal (.map acc)) :
    (convertedFields sprint flat).foldl (fun out e => insertPath (splitKey e.1) e.2 out)
        (convertedFields sprint acc) =
      convertedFields sprint (flat.foldl (fun out e => insertPath (splitKey e.1) e.2 out) acc) ∧
    Literal (.map (flat.foldl (fun out e => insertPath (splitKey e.1) e.2 out) acc)) := by
  induction flat generalizing acc with
  | nil => exact ⟨rfl, hacc⟩
  | cons e flat ih =>
    have hv := hf e mem_cons_self
    rw [convertedFields_cons, foldl_cons, foldl_cons,
      ← convertedFields_insertPath sprint (splitKey e.1) e.2 acc hv hacc]
    exact ih _ (fun e he => hf e (mem_cons_of_mem _ he)) (literal_insertPath _ _ _ hv hacc)

end

theorem flattenFields_literal {e : List Str × Value} (he : e ∈ flattenFields m) (hm : LiteralFields m) :
    Literal e.2 := by
  refine flattenFields_induct (motive := fun m e => LiteralFields m → Literal e.2) ?_ ?_ ?_ he hm
  · intro k v m _ hm
    rw [LiteralFields] at hm
    exact hm.1
  · intro k sub m e _ ih hm
    rw [LiteralFields, Literal] at hm
    exact ih hm.1.2
  · intro x m e ih hm
    rw [LiteralFields] at hm
    exact ih hm.2

section
variable (ext : Externals)

theorem resolveWithConfigSources_literal (srcs : Sources) (fuel : Nat) (h : History) (hlit : Literal (.map conf)) :
    resolveWithConfigSources ext srcs fuel conf h = (⟨convertedFields ext.sprint (toStringMap conf), none, none⟩, h) ∧
    Literal (.map (toStringMap conf)) := by
  rw [Literal] at hlit
  have hn := nodup_keys_flatten conf
  have hf : ∀ e ∈ flatten conf, Literal e.2 := by
    intro e he
    obtain ⟨e', he', rfl⟩ := exists_of_mem_flatten he
    exact flattenFields_literal he' hlit.2
  have hget : ∀ e ∈ flatten conf, get conf e.1 = e.2 := by
    intro e he
    rw [Confmap.get, find_of_mem hn he]
    rfl
  have hks : ∀ k ∈ allKeys conf, Literal (get conf k) := by
    intro k hk
    obtain ⟨e, he, rfl⟩ := mem_map.mp hk
    rw [hget e he]
    exact hf e he
  have hr : (allKeys conf).foldl (fun out k => put k (imapped (get conf k)) out) [] =
      (flatten conf).map fun e => (e.1, imapped e.2) := by
    rw [foldl_put_fresh (fun k => k) _ _ [] (by simpa [allKeys] using hn) (by simp [Lib.keys])]
    simp only [nil_append, allKeys, Lib.keys, map_map]
    refine map_congr_left fun e he => ?_
    simp [hget e he]
  obtain ⟨hc, hv⟩ := convertedFields_unflatten ext.sprint (flatten conf) [] hf literal_nil
  refine ⟨?_, hv⟩
  rw [resolveWithConfigSources, resolveConf, resolveKeys_eq, resolveEach_literal _ fun k hk =>
    resolveConfigValue_literal (fun s h hs => resolveStringValue_literal ext srcs fuel h hs) _ h (hks k hk), hr]
  simp only [Res.into, Prod.mk.injEq, Res.mk.injEq, and_true]
  rw [intfaceKeysToStrings_eq, map_map]
  exact hc

theorem distinctFields_of_literal (h : LiteralFields m) : DistinctFields m := by
  induction m using maps_induct with
  | nil => rw [DistinctFields]; trivial
  | cons k v m ihs ih =>
    rw [LiteralFields] at h
    rw [DistinctFields]
    refine ⟨?_, ih h.2⟩
    cases v with
    | map sub =>
      rw [Literal] at h
      rw [DistinctKeys]
      exact ⟨h.1.1, ihs sub rfl h.1.2⟩
    | _ =>
      rw [DistinctKeys]
      all_goals simp

/-- Without a `$` nothing is called and nothing fails. The configuration comes out as `confmap` showed it just if no
list in a list holds a map. `confmap` shows the tree itself, unless a key holds the delimiter. -/
theorem resolveWithConfigSources_literal_iff (srcs : Sources) (fuel : Nat) (conf : Fields)
    (h : History) (hlit : Literal (.map conf)) :
    ∃ out, resolveWithConfigSources ext srcs fuel conf h = (⟨out, none, none⟩, h) ∧
      ((Value.map out).deep = (Value.map (toStringMap conf)).deep ↔ noMapInNestedList (.map (toStringMap conf))) ∧
      (GoodFields conf → toStringMap conf = conf) := by
  obtain ⟨hrun, hv⟩ := resolveWithConfigSources_literal ext srcs fuel h hlit
  have hk : (keys (toStringMap conf)).Nodup := by rw [Literal] at hv; exact hv.1
  refine ⟨_, hrun, ?_, ?_⟩
  · rw [← converted_map ext.sprint _ hk]
    exact deep_converted_iff ext.sprint _ hv
  · intro hg
    rw [Literal] at hlit
    exact toStringMap_eq hlit.1 (distinctFields_of_literal hlit.2) hg

def listOfMap : Fields := [("a", .list [.map [("b", .int 1)]])]

theorem literal_listOfMap : Literal (.map listOfMap) := by
  simp [listOfMap, Literal, LiteralFields, LiteralElems, Lib.keys]

theorem resolveWithConfigSources_literal_iff_listOfMap : Literal (.map listOfMap) ∧
    ∃ out, resolveWithConfigSources plainExternals noSources 0 listOfMap [] = (⟨out, none, none⟩, []) ∧
      (Value.map out).deep = (Value.map listOfMap).deep := by
  obtain ⟨out, hrun, hiff, hs⟩ := resolveWithConfigSources_literal_iff plainExternals noSources 0
    listOfMap [] literal_listOfMap
  have hg : GoodFields listOfMap := by
    simp [listOfMap, GoodFields, GoodKeys, NoDouble, isNode]
  rw [hs hg] at hiff
  exact ⟨literal_listOfMap, out, hrun, hiff.mpr (by decide)⟩

def listOfListOfMap : Fields := [("a", .list [.list [.map [("b", .int 1)]]])]

theorem resolveWithConfigSources_listOfListOfMap : Literal (.map listOfListOfMap) ∧
    (resolveWithConfigSources plainExternals noSources 0 listOfListOfMap []).1.value =
      [("a".toList, .list [.list [.imap [(.str "b".toList, .int 1)]]])] ∧
    (Value.map (resolveWithConfigSources plainExternals noSources 0 listOfListOfMap []).1.value).deep ≠
      (Value.map listOfListOfMap).deep := by
  have hlit : Literal (.map listOfListOfMap) := by
    simp [listOfListOfMap, Literal, LiteralFields, LiteralElems, Lib.keys]
  have hrun := (resolveWithConfigSources_literal plainExternals noSources 0 [] hlit).1
  rw [hrun, show toStringMap listOfListOfMap = listOfListOfMap from rfl]
  refine ⟨hlit, rfl, ?_⟩
  rw [← converted_map _ _ (by decide), Ne, deep_converted_iff _ _ hlit]
  decide

end

end Collector.ConfigSource
