import Collector.Confmap.Rewrite
import Collector.Lib.Regex

/-!
# `RenameK8sTagger`

`internal/configconverter/k8s_tagger.go`. One expression renames definitions in the flat keys, another one references in
the lists of the pipelines.
-/

namespace Collector.ConfigConverter

open Lib Lib.Regex Confmap List Option

namespace RenameK8sTagger

def k8sTagger : Str := "k8s_tagger"

def k8sAttributes : Str := "k8sattributes"

def processors : Str := "processors"

def nameRe : Pattern Char := opt (group 1 (seq (lit ['/']) (seq (plus word) (upTo (· == ':') 2))))

def taggerRe : Pattern Char := seq (lit k8sTagger) nameRe

/-- The expression `processors::k8s_tagger(/\w+:{0,2})?(.+)?`. -/
def k8sTaggerKeyRe : Pattern Char := seq (lit (processors ++ [':', ':'])) (seq taggerRe (opt (group 2 (plus dot))))

/-- The expression `service(.+)processors`. -/
def serviceEntryRe : Pattern Char := seq (lit "service") (seq (group 1 (plus dot)) (lit processors))

def convertReference (s : Str) : Str :=
  match search taggerRe s with
  | some m => k8sAttributes ++ m.group 1
  | none => s

def convertElem : Value → Value
  | .str s => .str (convertReference s)
  | v => v

def convertEntry : Value → Value
  | .list vs => .list (vs.map convertElem)
  | v => v

def rule (k : Str) (v : Value) : Option (Str × Value) :=
  match search k8sTaggerKeyRe k with
  | some m => some (processors ++ [':', ':'] ++ k8sAttributes ++ m.group 1 ++ m.group 2, v)
  | none => some (k, if (search serviceEntryRe k).isSome then convertEntry v else v)

/-- The order of `out` is one of those that a run may take. -/
def convert (conf : Fields) : Fields := newFromStringMap (rewriteKeys rule conf)

/-! ## The expressions -/

def nameOf : Str → Str
  | '/' :: s =>
    if s.takeWhile word = [] then []
    else '/' :: (s.takeWhile word ++ ((s.dropWhile word).takeWhile (· == ':')).take 2)
  | _ => []

theorem head?_nameRe (s : Str) : ∃ rest g, (nameRe s).head? = some ⟨nameOf s, g, rest⟩ ∧ s = nameOf s ++ rest ∧
    (g = [(1, nameOf s)] ∨ g = [] ∧ nameOf s = []) := by
  have he (hn : nameOf s = []) (hnil : seq (lit ['/']) (seq (plus word) (upTo (· == ':') 2)) s = []) :
      (nameRe s).head? = some ⟨nameOf s, [], s⟩ := by
    simp [nameRe, opt, group, hnil, hn]
  by_cases hs : ['/'] <+: s
  · obtain ⟨s, rfl⟩ := hs
    rw [singleton_append] at he ⊢
    by_cases hw : s.takeWhile word = []
    · have hn : nameOf ('/' :: s) = [] := by simp [nameOf, hw]
      refine ⟨_, _, he hn ?_, by simp [hn], .inr ⟨rfl, hn⟩⟩
      exact (seq_lit ['/'] s _).trans (by simp [seq, plus_eq_nil word hw])
    · have hn : nameOf ('/' :: s) =
          '/' :: (s.takeWhile word ++ ((s.dropWhile word).takeWhile (· == ':')).take 2) := by simp [nameOf, hw]
      have hh := head?_seq (plus word) (upTo (· == ':') 2) (upTo_ne_nil _ 2) s
      rw [head?_plus word hw, bind_some, head?_upTo, map_some] at hh
      have hseq : seq (lit ['/']) (seq (plus word) (upTo (· == ':') 2)) ('/' :: s) = _ := seq_lit ['/'] s _
      refine ⟨(s.dropWhile word).drop (((s.dropWhile word).takeWhile (· == ':')).take 2).length,
        [(1, nameOf ('/' :: s))], ?_, ?_, .inl rfl⟩
      · rw [nameRe, opt, head?_append, group, head?_map, hseq, head?_map, hh, hn]
        rfl
      · rw [hn, cons_append, append_assoc]
        have hc : ((s.dropWhile word).takeWhile (· == ':')).take 2 <+: s.dropWhile word :=
          ( take_prefix 2 _).trans ( takeWhile_prefix _)
        rw [prefix_iff_eq_append.mp hc, takeWhile_append_dropWhile]
  · have hn : nameOf s = [] := by
      unfold nameOf
      split
      · simp at hs
      · rfl
    refine ⟨_, _, he hn ?_, by simp [hn], .inr ⟨rfl, hn⟩⟩
    rw [seq, lit_eq_nil hs]
    rfl

theorem dot_of_mem_nameOf {s : Str} {c : Char} (h : c ∈ nameOf s) : dot c = true := by
  have hw (c : Char) (h : word c = true) : dot c = true := by
    rw [dot, bne_iff_ne]
    rintro rfl
    exact absurd h (by decide)
  unfold nameOf at h
  split at h
  · split at h
    · cases h
    · simp only [mem_cons, mem_append] at h
      rcases h with rfl | h | h
      · decide
      · exact hw c (mem_takeWhile_imp h)
      · have hc := mem_takeWhile_imp ((take_sublist 2 _).mem h)
        rw [beq_iff_eq] at hc
        rw [hc]
        decide
  · cases h

theorem head?_taggerRe (rest : Str) : ∃ m, (taggerRe (k8sTagger ++ rest)).head? = some m ∧
    rest = nameOf rest ++ m.rest ∧ m.group 1 = nameOf rest ∧
      (m.groups = [(1, nameOf rest)] ∨ m.groups = [] ∧ nameOf rest = []) := by
  obtain ⟨rest', g, hh, hr, hg⟩ := head?_nameRe rest
  refine ⟨⟨k8sTagger ++ nameOf rest, g, rest'⟩, ?_, hr, ?_, hg⟩
  · rw [taggerRe, seq_lit, head?_map, hh]
    rfl
  · rcases hg with rfl | ⟨rfl, hn⟩
    · rfl
    · exact hn.symm

theorem search_k8sTaggerKeyRe (rest : Str) :
    ∃ m, search k8sTaggerKeyRe (processors ++ [':', ':'] ++ (k8sTagger ++ rest)) = some m ∧
      m.group 1 ++ m.group 2 = rest.takeWhile dot := by
  obtain ⟨m, hh, hr, -, hg⟩ := head?_taggerRe rest
  have ht : rest.takeWhile dot = nameOf rest ++ m.rest.takeWhile dot := by
    nth_rewrite 1 [hr]
    exact takeWhile_append_of_pos fun c hc => dot_of_mem_nameOf hc
  obtain ⟨m', hm', hgr'⟩ : ∃ m', (opt (group 2 (plus dot)) m.rest).head? = some m' ∧
      m'.groups = if m.rest.takeWhile dot = [] then [] else [(2, m.rest.takeWhile dot)] := by
    by_cases hdot : m.rest.takeWhile dot = []
    · exact ⟨⟨[], [], m.rest⟩, by simp [opt, group, plus_eq_nil dot hdot], by simp [hdot]⟩
    · refine ⟨⟨m.rest.takeWhile dot, [(2, m.rest.takeWhile dot)], m.rest.dropWhile dot⟩, ?_, by simp [hdot]⟩
      simp [opt, group, head?_append, head?_plus dot hdot]
  have hseq := head?_seq taggerRe (opt (group 2 (plus dot))) (opt_ne_nil _) (k8sTagger ++ rest)
  rw [hh, bind_some, hm', map_some] at hseq
  refine ⟨⟨processors ++ [':', ':'] ++ (m.text ++ m'.text), m.groups ++ m'.groups, m'.rest⟩, search_of_head? ?_, ?_⟩
  · rw [k8sTaggerKeyRe, seq_lit, head?_map, hseq, map_some]
  · rw [ht]
    simp only [Match.group, hgr']
    rcases hg with hg | ⟨hg, hn⟩
    · by_cases hdot : m.rest.takeWhile dot = [] <;> simp [hg, hdot, find]
    · by_cases hdot : m.rest.takeWhile dot = [] <;> simp [hg, hn, hdot, find]

theorem search_k8sTaggerKeyRe_eq_none {k : Str} (h : ¬ processors ++ [':', ':'] ++ k8sTagger <:+: k) :
    search k8sTaggerKeyRe k = none := by
  refine search_eq_none.mpr fun suf hsuf => eq_nil_iff_forall_not_mem.mpr fun ⟨t, g, rest⟩ hm => h ?_
  obtain ⟨_, _, mid, _, _, hlit, hm, -, -⟩ := mem_seq.mp hm
  obtain ⟨_, _, mid', _, _, hm, -, -, -⟩ := mem_seq.mp hm
  obtain ⟨_, _, mid'', _, _, hlit', -, -, -⟩ := mem_seq.mp hm
  rw [(mem_lit.mp hlit).2.2, (mem_lit.mp hlit').2.2, ← append_assoc] at hsuf
  exact (prefix_append _ _).isInfix.trans hsuf.isInfix

/-- The key holds `service` and later, in the same line and not next to it, `processors`. -/
def ServiceEntry (k : Str) : Prop :=
  ∃ pre mid post, k = pre ++ ("service" ++ (mid ++ (processors ++ post))) ∧ mid ≠ [] ∧ ∀ c ∈ mid, dot c = true

theorem search_serviceEntryRe (k : Str) : (search serviceEntryRe k).isSome ↔ ServiceEntry k := by
  rw [exists_mem_of_search]
  constructor
  · rintro ⟨pre, suf, ⟨t, g, rest⟩, rfl, hm⟩
    obtain ⟨_, _, mid, _, _, hlit, hm, -, -⟩ := mem_seq.mp hm
    obtain ⟨_, _, mid', _, _, hg, hlit', -, -⟩ := mem_seq.mp hm
    obtain ⟨_, hp, -⟩ := mem_group.mp hg
    obtain ⟨-, hmid, hne, hall⟩ := mem_plus.mp hp
    refine ⟨pre, _, rest, ?_, hne, hall⟩
    rw [(mem_lit.mp hlit).2.2, hmid, (mem_lit.mp hlit').2.2]
  · rintro ⟨pre, mid, post, rfl, hne, hall⟩
    have hg : ⟨mid, [] ++ [(1, mid)], processors ++ post⟩ ∈ group 1 (plus dot) (mid ++ (processors ++ post)) :=
      mem_group.mpr ⟨[], mem_plus.mpr ⟨rfl, rfl, hne, hall⟩, rfl⟩
    have hlit : ⟨processors, [], post⟩ ∈ lit processors (processors ++ post) := mem_lit.mpr ⟨rfl, rfl, rfl⟩
    have hseq := mem_seq.mpr ⟨_, _, _, _, _, hg, hlit, rfl, rfl⟩
    exact ⟨pre, _, _, rfl, mem_seq.mpr ⟨_, _, _, _, _, mem_lit.mpr ⟨rfl, rfl, rfl⟩, hseq, rfl, rfl⟩⟩

/-! ## References -/

theorem convertReference_tagger (rest : Str) :
    convertReference (k8sTagger ++ rest) = k8sAttributes ++ nameOf rest := by
  obtain ⟨m, hh, -, hg, -⟩ := head?_taggerRe rest
  rw [convertReference, search_of_head? hh]
  exact congrArg (k8sAttributes ++ ·) hg

theorem convertReference_of_absent {s : Str} (h : ¬ k8sTagger <:+: s) : convertReference s = s := by
  have hn : search taggerRe s = none := by
    refine search_eq_none.mpr fun suf hsuf => eq_nil_iff_forall_not_mem.mpr fun ⟨t, g, rest⟩ hm => h ?_
    obtain ⟨_, _, mid, _, _, hlit, -, -, -⟩ := mem_seq.mp hm
    rw [(mem_lit.mp hlit).2.2] at hsuf
    exact (prefix_append _ _).isInfix.trans hsuf.isInfix
  rw [convertReference, hn]

theorem convertReference_ne {s : Str} (h : k8sTagger <:+: s) : convertReference s ≠ s := by
  obtain ⟨pre, post, rfl⟩ := h
  obtain ⟨m₀, hh₀, -⟩ := head?_taggerRe post
  have hso : (search taggerRe (pre ++ k8sTagger ++ post)).isSome :=
    exists_mem_of_search.mpr ⟨pre, _, m₀, append_assoc .., mem_of_head? hh₀⟩
  obtain ⟨m, hm⟩ := isSome_iff_exists.mp hso
  obtain ⟨suf, ⟨pre', hs⟩, hh⟩ := search_eq_some hm
  obtain ⟨_, _, rest, _, _, hlit, -⟩ := mem_seq.mp (mem_of_head? hh)
  obtain ⟨-, -, rfl⟩ := mem_lit.mp hlit
  obtain ⟨m', hh', hre, hg, -⟩ := head?_taggerRe rest
  obtain rfl : m = m' := some.inj (hh.symm.trans hh')
  intro heq
  rw [convertReference, hm] at heq
  simp only [hg, ← hs] at heq
  -- The new name has only three characters more, so the old one would start in its first four.
  have hlen := congrArg length heq
  have hr := congrArg length hre
  simp only [length_append, show k8sAttributes.length = 13 from rfl, show k8sTagger.length = 10 from rfl] at hlen hr
  have hd : k8sTagger <+: k8sAttributes.drop pre'.length := by
    have : k8sTagger <+: k8sAttributes.drop pre'.length ++ nameOf rest := by
      rw [← drop_append_of_le_length (by simp only [show k8sAttributes.length = 13 from rfl]; omega), heq, drop_left]
      exact prefix_append _ _
    refine prefix_of_prefix_length_le this (prefix_append _ _) ?_
    simp only [length_drop, show k8sAttributes.length = 13 from rfl, show k8sTagger.length = 10 from rfl]
    omega
  have hnot : ∀ n ≤ 3, ¬ k8sTagger <+: k8sAttributes.drop n := by decide
  exact hnot pre'.length (by omega) hd

/-! ## What should happen -/

def IsTagger (n : Str) : Prop := n = k8sTagger ∨ k8sTagger ++ ['/'] <+: n

instance (n : Str) : Decidable (IsTagger n) := inferInstanceAs (Decidable (_ ∨ _))

def renamed (n : Str) : Str := if IsTagger n then k8sAttributes ++ n.drop k8sTagger.length else n

theorem isTagger_append (r : Str) : IsTagger (k8sTagger ++ r) ↔ r = [] ∨ ['/'] <+: r := by
  rw [IsTagger, append_right_eq_self, prefix_append_right_inj]

theorem IsTagger.front {n : Str} (h : IsTagger n) : k8sTagger <+: n := by
  rcases h with rfl | h
  · exact prefix_rfl
  · exact (prefix_append _ _).trans h

theorem renamed_tagger {r : Str} (h : IsTagger (k8sTagger ++ r)) : renamed (k8sTagger ++ r) = k8sAttributes ++ r := by
  rw [renamed, if_pos h, drop_left]

theorem renamed_of_not_tagger {n : Str} (h : ¬ IsTagger n) : renamed n = n := by rw [renamed, if_neg h]

theorem not_isTagger_attributes (r : Str) : ¬ IsTagger (k8sAttributes ++ r) := by
  intro h
  have := prefix_of_prefix_length_le h.front (prefix_append k8sAttributes r) (by decide)
  exact absurd this (by decide)

def GoodReference (s : Str) : Prop :=
  ¬ k8sTagger <:+: s ∨ s = k8sTagger ∨ ∃ w c, w ≠ [] ∧ (∀ x ∈ w, word x = true) ∧
    c ∈ [[], [':'], [':', ':']] ∧ s = k8sTagger ++ '/' :: (w ++ c)

theorem nameOf_eq_self_iff {r : Str} (h : r = [] ∨ ['/'] <+: r) :
    nameOf r = r ↔ r = [] ∨ ∃ w c, w ≠ [] ∧ (∀ x ∈ w, word x = true) ∧ c ∈ [[], [':'], [':', ':']] ∧
      r = '/' :: (w ++ c) := by
  have hco : ∀ c : Str, (∀ x ∈ c, x = ':') → c.length ≤ 2 → c ∈ [[], [':'], [':', ':']]
    | [], _, _ => by simp
    | [a], h, _ => by simp [h a (by simp)]
    | [a, b], h, _ => by simp [h a (by simp), h b (by simp)]
    | _ :: _ :: _ :: _, _, hlen => absurd hlen (by simp)
  rcases h with rfl | ⟨s, rfl⟩
  · simp [nameOf]
  · rw [singleton_append]
    constructor
    · intro h
      by_cases hw : s.takeWhile word = []
      · simp [nameOf, hw] at h
      · simp only [nameOf, hw, if_false, cons.injEq, true_and] at h
        refine .inr ⟨_, _, hw, fun x hx => mem_takeWhile_imp hx, hco _ (fun x hx => ?_) ?_, by rw [h]⟩
        · simpa using mem_takeWhile_imp ((take_sublist 2 _).mem hx)
        · exact length_take_le 2 _
    · rintro (h | ⟨w, c, hne, hall, hc, h⟩)
      · cases h
      · obtain rfl := (cons.inj h).2
        have ht : (w ++ c).takeWhile word = w ∧ (w ++ c).dropWhile word = c := by
          rw [takeWhile_append_of_pos hall, dropWhile_append_of_pos hall]
          simp only [mem_cons, not_mem_nil, or_false] at hc
          rcases hc with rfl | rfl | rfl <;> simp [takeWhile, dropWhile, show word ':' = false by decide]
        simp only [nameOf, ht, hne, if_false]
        simp only [mem_cons, not_mem_nil, or_false] at hc
        rcases hc with rfl | rfl | rfl <;> rfl

theorem convertReference_eq_renamed_iff (s : Str) : convertReference s = renamed s ↔ GoodReference s := by
  by_cases hi : k8sTagger <:+: s
  · by_cases ht : IsTagger s
    · obtain ⟨r, rfl⟩ := ht.front
      rw [convertReference_tagger, renamed_tagger ht, append_cancel_left_eq,
        nameOf_eq_self_iff ((isTagger_append r).mp ht)]
      simp [GoodReference, hi, append_right_eq_self, append_cancel_left_eq]
    · rw [renamed_of_not_tagger ht]
      refine ⟨fun h => absurd h (convertReference_ne hi), ?_⟩
      rintro (h | rfl | ⟨w, c, -, -, -, rfl⟩)
      · exact absurd hi h
      · exact absurd (.inl rfl) ht
      · exact absurd (.inr (by simp)) ht
  · have ht : ¬ IsTagger s := fun h => hi h.front.isInfix
    rw [convertReference_of_absent hi, renamed_of_not_tagger ht]
    exact ⟨fun _ => .inl hi, fun _ => rfl⟩

def renamedElem : Value → Value
  | .str s => .str (renamed s)
  | v => v

def pipeline (p : Str) : List Str := ["service", "pipelines", p, processors]

def Defined (conf : Fields) (n : Str) : Prop := ∃ q v, leafAt conf (processors :: n :: q) = some v

def ReferencesDefined (conf : Fields) : Prop :=
  ∀ p vs n, leafAt conf (pipeline p) = some (.list vs) → .str n ∈ vs → Defined conf n

/-- The definitions and the references have their new names, and there are no other ones. -/
structure KeepsReferences (conf conf' : Fields) : Prop where
  definition : ∀ n q v, leafAt conf (processors :: n :: q) = some v →
    leafAt conf' (processors :: renamed n :: q) = some v
  noDefinition : ∀ n' q v, leafAt conf' (processors :: n' :: q) = some v →
    ∃ n, renamed n = n' ∧ leafAt conf (processors :: n :: q) = some v
  reference : ∀ p vs, leafAt conf (pipeline p) = some (.list vs) →
    leafAt conf' (pipeline p) = some (.list (vs.map renamedElem))
  noReference : ∀ p vs', leafAt conf' (pipeline p) = some (.list vs') →
    ∃ vs, vs' = vs.map renamedElem ∧ leafAt conf (pipeline p) = some (.list vs)
  defined : ReferencesDefined conf'

/-- No key holds `processors::k8s_tagger` but at its start. -/
def NoStray (conf : Fields) : Prop :=
  ∀ k v, leafAt conf (splitKey k) = some v → processors ++ [':', ':'] ++ k8sTagger <:+: k →
    processors ++ [':', ':'] ++ k8sTagger <+: k

def NoTwins (conf : Fields) : Prop := ∀ n n', Defined conf n → Defined conf n' → renamed n = renamed n' → n = n'

structure Convertible (conf : Fields) : Prop where
  definition : ∀ r q v, leafAt conf (processors :: (k8sTagger ++ r) :: q) = some v →
    IsTagger (k8sTagger ++ r) ∧ '\n' ∉ joinKey (r :: q)
  settings : ∀ n q vs s, leafAt conf (processors :: n :: q) = some (.list vs) → ¬ IsTagger n →
    ServiceEntry (joinKey (processors :: n :: q)) → .str s ∈ vs → ¬ k8sTagger <:+: s
  reference : ∀ p vs s, leafAt conf (pipeline p) = some (.list vs) → .str s ∈ vs →
    ServiceEntry (joinKey (pipeline p)) → GoodReference s
  noReference : ∀ p vs s, leafAt conf (pipeline p) = some (.list vs) → .str s ∈ vs →
    ¬ ServiceEntry (joinKey (pipeline p)) → ¬ IsTagger s

/-! ## What the rule does with a leaf -/

theorem keepsLeaves_rule : KeepsLeaves rule := by
  intro k v k' v' hv h
  rw [rule] at h
  split at h
  · cases h
    exact hv
  · cases h
    split
    · cases v <;> first | rfl | exact hv
    · exact hv

theorem joinKey_processors (n : Str) (q : List Str) :
    joinKey (processors :: n :: q) = processors ++ [':', ':'] ++ joinKey (n :: q) := by
  rw [joinKey, joinDouble, append_assoc]
  rfl

theorem joinKey_name (w r : Str) (q : List Str) : joinKey ((w ++ r) :: q) = w ++ joinKey (r :: q) :=
  joinDouble_append_head ':' w r q

theorem rule_tagger (q : List Str) (v : Value) : rule (joinKey (processors :: (k8sTagger ++ r) :: q)) v =
      some (processors ++ [':', ':'] ++ (k8sAttributes ++ (joinKey (r :: q)).takeWhile dot), v) := by
  obtain ⟨m, hm, hg⟩ := search_k8sTaggerKeyRe (joinKey (r :: q))
  rw [rule, joinKey_processors, joinKey_name, hm]
  simp [hg]

theorem rule_other {k : Str} (h : ¬ processors ++ [':', ':'] ++ k8sTagger <:+: k) (v : Value) :
    rule k v = some (k, if (search serviceEntryRe k).isSome then convertEntry v else v) := by
  rw [rule, search_k8sTaggerKeyRe_eq_none h]

theorem tagger_ne_attributes (r r' : Str) : k8sTagger ++ r ≠ k8sAttributes ++ r' := by
  intro h
  have ht : k8sTagger <+: k8sAttributes ++ r' := h ▸ prefix_append _ _
  exact absurd (prefix_of_prefix_length_le ht (prefix_append _ _) (by decide)) (by decide)

section
variable {conf : Fields} {p q : List Str} {v v' : Value} (hconf : Clean conf) (hstray : NoStray conf)
include hconf hstray

theorem rule_cases (h : leafAt conf p = some v) : (∃ r q, p = processors :: (k8sTagger ++ r) :: q) ∨
      (∀ r q, p ≠ processors :: (k8sTagger ++ r) :: q) ∧ rule (joinKey p) v =
          some (joinKey p, if (search serviceEntryRe (joinKey p)).isSome then convertEntry v else v) := by
  have hs := splitKey_joinKey hconf h
  by_cases hi : processors ++ [':', ':'] ++ k8sTagger <:+: joinKey p
  · obtain ⟨rest, hr⟩ := hstray _ v (hs.symm ▸ h) hi
    obtain ⟨r, q, hrq⟩ := exists_cons_of_ne_nil (splitDouble_ne_nil ':' rest)
    refine .inl ⟨r, q, ?_⟩
    have hs' : splitKey (processors ++ ':' :: ':' :: (k8sTagger ++ rest)) = processors :: (k8sTagger ++ r) :: q := by
      rw [splitKey, splitDouble_cons (by decide), splitDouble_append_head rest (by decide), hrq]
      rfl
    rw [← hs, ← hr, ← hs', append_assoc, append_assoc]
    rfl
  · refine .inr ⟨?_, rule_other hi v⟩
    rintro r q rfl
    exact hi ⟨[], joinKey (r :: q), by rw [joinKey_processors, joinKey_name]; simp⟩

theorem written_cases {k' : Str} (h : leafAt conf p = some v) (hr : rule (joinKey p) v = some (k', v')) :
    (∃ r q r' q', p = processors :: (k8sTagger ++ r) :: q ∧ v' = v ∧
      splitKey k' = processors :: (k8sAttributes ++ r') :: q' ∧ '\n' ∉ joinKey (r' :: q') ∧
      ('\n' ∉ joinKey (r :: q) → r' = r ∧ q' = q)) ∨
    (∀ r q, p ≠ processors :: (k8sTagger ++ r) :: q) ∧ splitKey k' = p ∧
      v' = if (search serviceEntryRe (joinKey p)).isSome then convertEntry v else v := by
  rcases rule_cases hconf hstray h with ⟨r, q, rfl⟩ | ⟨hp, ho⟩
  · rw [rule_tagger] at hr
    cases hr
    obtain ⟨r', q', hrq⟩ := exists_cons_of_ne_nil (splitDouble_ne_nil ':' ((joinKey (r :: q)).takeWhile dot))
    refine .inl ⟨r, q, r', q', rfl, rfl, ?_, ?_, fun hnl => ?_⟩
    · have hs : splitKey (processors ++ ':' :: ':' :: (k8sAttributes ++ (joinKey (r :: q)).takeWhile dot)) =
          processors :: (k8sAttributes ++ r') :: q' := by
        rw [splitKey, splitDouble_cons (by decide), splitDouble_append_head _ (by decide), hrq]
        rfl
      rw [← hs, append_assoc]
      rfl
    · rw [← hrq]
      intro hmem
      rw [show joinKey (splitDouble ':' _) = _ from joinKey_splitKey _] at hmem
      exact absurd (mem_takeWhile_imp hmem) (by decide)
    · have hgood : GoodParts ':' (([] ++ r) :: q) :=
        goodParts_exchange (by decide) (by simp) (leafAt_good hconf h).2.2
      rw [nil_append] at hgood
      have hall : (joinKey (r :: q)).takeWhile dot = joinKey (r :: q) := by
        refine takeWhile_eq_self_iff.mpr fun c hc => ?_
        rw [dot, bne_iff_ne]
        exact fun hc' => hnl (hc' ▸ hc)
      rw [hall, joinKey, splitDouble_joinDouble hgood] at hrq
      exact ⟨(cons.inj hrq).1.symm, (cons.inj hrq).2.symm⟩
  · rw [ho] at hr
    cases hr
    exact .inr ⟨hp, splitKey_joinKey hconf h, rfl⟩

/-! ## The condition is necessary -/

section
variable {conf' : Fields} (hkeeps : KeepsReferences conf conf') (htwins : NoTwins conf)
  (hwritten : ∀ p' v', leafAt conf' p' = some v' →
    ∃ p v k', leafAt conf p = some v ∧ rule (joinKey p) v = some (k', v') ∧ splitKey k' = p')
include hkeeps htwins hwritten

theorem definition_of_keeps (r : Str) (q : List Str) (v : Value)
    (h : leafAt conf (processors :: (k8sTagger ++ r) :: q) = some v) :
    IsTagger (k8sTagger ++ r) ∧ '\n' ∉ joinKey (r :: q) := by
  obtain ⟨p, w, k', hw, hru, hk'⟩ := hwritten _ _ (hkeeps.definition _ _ _ h)
  have hc := written_cases hconf hstray hw hru
  rw [hk'] at hc
  by_cases ht : IsTagger (k8sTagger ++ r)
  · rw [renamed_tagger ht] at hc
    refine ⟨ht, fun hnl => ?_⟩
    rcases hc with ⟨r₂, q₂, r', q', -, -, heq, hnl', -⟩ | ⟨-, rfl, -⟩
    · -- a new key has no newline
      obtain ⟨hr, rfl⟩ := cons.inj (cons.inj heq).2
      rw [append_cancel_left_eq] at hr
      exact hnl' (hr ▸ hnl)
    · -- an old key of that name is a second definition
      have heq := htwins (k8sTagger ++ r) (k8sAttributes ++ r) ⟨q, v, h⟩ ⟨q, w, hw⟩
        (by rw [renamed_tagger ht, renamed_of_not_tagger (not_isTagger_attributes r)])
      exact tagger_ne_attributes r r heq
  · rw [renamed_of_not_tagger ht] at hc
    rcases hc with ⟨r₂, q₂, r', q', -, -, heq, -⟩ | ⟨hp, rfl, -⟩
    · exact absurd (cons.inj (cons.inj heq).2).1 (tagger_ne_attributes r r')
    · exact absurd rfl (hp r q)

theorem settings_of_keeps (n : Str) (q : List Str) (vs : List Value) (s : Str)
    (h : leafAt conf (processors :: n :: q) = some (.list vs)) (ht : ¬ IsTagger n)
    (hse : ServiceEntry (joinKey (processors :: n :: q))) (hs : .str s ∈ vs) : ¬ k8sTagger <:+: s := by
  obtain ⟨p, w, k', hw, hr, hk'⟩ := hwritten _ _ (hkeeps.definition _ _ _ h)
  have hc := written_cases hconf hstray hw hr
  rw [hk', renamed_of_not_tagger ht] at hc
  rcases hc with ⟨r₂, q₂, r', q', rfl, -, heq, -, hsa⟩ | ⟨hp, rfl, hv⟩
  · -- the tagger of that name would be a second definition
    obtain ⟨ht₂, hnl⟩ := definition_of_keeps hconf hstray hkeeps htwins hwritten _ _ _ hw
    obtain ⟨rfl, rfl⟩ := hsa hnl
    obtain ⟨rfl, rfl⟩ := cons.inj (cons.inj heq).2
    exact absurd (htwins _ _ ⟨_, _, hw⟩ ⟨_, _, h⟩ (by rw [renamed_tagger ht₂, renamed_of_not_tagger ht]))
      (tagger_ne_attributes _ _)
  · obtain rfl : .list vs = w := some.inj (h.symm.trans hw)
    rw [if_pos ((search_serviceEntryRe _).mpr hse), convertEntry, Value.list.injEq] at hv
    have hf := map_inj_left.mp (hv.symm.trans (map_id vs).symm) _ hs
    exact fun hi => convertReference_ne hi (Value.str.inj hf)

omit htwins in
theorem reference_of_keeps {p s : Str} {vs : List Value}
    (h : leafAt conf (pipeline p) = some (.list vs)) (hs : .str s ∈ vs) :
    (if (search serviceEntryRe (joinKey (pipeline p))).isSome then convertReference s else s) = renamed s := by
  obtain ⟨p', w, k', hw, hr, hk'⟩ := hwritten _ _ (hkeeps.reference _ _ h)
  have hc := written_cases hconf hstray hw hr
  rw [hk'] at hc
  rcases hc with ⟨r₂, q₂, r', q', rfl, -, heq, -⟩ | ⟨hp, rfl, hv⟩
  · exact absurd (cons.inj heq).1 (by decide)
  · obtain rfl : .list vs = w := some.inj (h.symm.trans hw)
    split_ifs at hv with hse
    · rw [if_pos hse]
      exact Value.str.inj (map_inj_left.mp (Value.list.inj hv) _ hs).symm
    · rw [if_neg hse]
      exact Value.str.inj (map_inj_left.mp ((Value.list.inj hv).trans (map_id vs).symm) _ hs).symm

theorem convertible_of_keeps : Convertible conf where
  definition := definition_of_keeps hconf hstray hkeeps htwins hwritten
  settings := settings_of_keeps hconf hstray hkeeps htwins hwritten
  reference p vs s h hs hse := by
    have := reference_of_keeps hconf hstray hkeeps hwritten h hs
    rwa [if_pos ((search_serviceEntryRe _).mpr hse), convertReference_eq_renamed_iff] at this
  noReference p vs s h hs hse ht := by
    have := reference_of_keeps hconf hstray hkeeps hwritten h hs
    rw [if_neg fun hso => hse ((search_serviceEntryRe _).mp hso)] at this
    obtain ⟨r, rfl⟩ := ht.front
    rw [renamed_tagger ht] at this
    exact tagger_ne_attributes r r this

end

/-! ## The condition is sufficient -/

def newPath : List Str → List Str
  | a :: n :: q => a :: (if a = processors then renamed n else n) :: q
  | p => p

omit hconf hstray in
theorem newPath_eq_processors {n' : Str} (h : newPath p = processors :: n' :: q) :
    ∃ n, p = processors :: n :: q ∧ renamed n = n' := by
  match p with
  | [] => cases h
  | [a] => cases h
  | a :: n :: p =>
    rw [newPath] at h
    obtain ⟨rfl, h⟩ := cons.inj h
    obtain ⟨hn, rfl⟩ := cons.inj h
    exact ⟨n, rfl, hn⟩

omit hconf hstray in
theorem newPath_eq_pipeline {x : Str} (h : newPath p = pipeline x) : p = pipeline x := by
  match p with
  | [] => cases h
  | [a] => cases h
  | a :: n :: p =>
    rw [newPath] at h
    obtain ⟨ha, h⟩ := cons.inj h
    obtain ⟨hn, rfl⟩ := cons.inj h
    rw [if_neg (by rw [ha]; decide)] at hn
    rw [ha, hn]
    rfl

def renamedEntry : Value → Value
  | .list vs => .list (vs.map renamedElem)
  | v => v

section
variable (htwins : NoTwins conf) (hgood : Convertible conf)
include hgood

theorem written_of_convertible (h : leafAt conf p = some v) :
    ∃ k' v', rule (joinKey p) v = some (k', v') ∧ splitKey k' = newPath p ∧
      (∀ n q, p = processors :: n :: q → v' = v) ∧ (∀ x, p = pipeline x → v' = renamedEntry v) := by
  obtain ⟨⟨k', v'⟩, hr⟩ : ∃ e, rule (joinKey p) v = some e := by
    rw [rule]
    split <;> exact ⟨_, rfl⟩
  refine ⟨k', v', hr, ?_⟩
  rcases written_cases hconf hstray h hr with ⟨r, q, r', q', rfl, rfl, hsp, -, hsa⟩ | ⟨hp, hsp, hv'⟩
  · obtain ⟨ht, hnl⟩ := hgood.definition r q v' h
    obtain ⟨rfl, rfl⟩ := hsa hnl
    refine ⟨?_, fun _ _ _ => rfl, fun x hx => ?_⟩
    · rw [hsp, newPath, if_pos rfl, renamed_tagger ht]
    · exact absurd (cons.inj hx).1 (by decide)
  · have hnot (n : Str) (q : List Str) (heq : p = processors :: n :: q) : ¬ IsTagger n := by
      intro ht
      obtain ⟨r, rfl⟩ := ht.front
      exact hp r q heq
    refine ⟨?_, fun n q heq => ?_, fun x hx => ?_⟩
    · rw [hsp]
      unfold newPath
      split
      · rename_i a n q
        by_cases ha : a = processors
        · subst ha
          rw [if_pos rfl, renamed_of_not_tagger (hnot n q rfl)]
        · rw [if_neg ha]
      · rfl
    · subst heq
      rw [hv']
      split_ifs with hs
      · cases v with
        | list vs =>
          refine congrArg Value.list ((map_congr_left fun x hx => ?_).trans (map_id vs))
          cases x with
          | str s =>
            exact congrArg Value.str (convertReference_of_absent
              (hgood.settings n q vs s h (hnot n q rfl) ((search_serviceEntryRe _).mp hs) hx))
          | _ => rfl
        | _ => rfl
      · rfl
    · subst hx
      rw [hv']
      cases v with
      | list vs =>
        split_ifs with hs
        · refine congrArg Value.list (map_congr_left fun y hy => ?_)
          cases y with
          | str s =>
            exact congrArg Value.str ((convertReference_eq_renamed_iff s).mpr
              (hgood.reference x vs s h hy ((search_serviceEntryRe _).mp hs)))
          | _ => rfl
        · refine congrArg Value.list ((map_id vs).symm.trans (map_congr_left fun y hy => ?_))
          cases y with
          | str s =>
            refine congrArg Value.str (renamed_of_not_tagger (hgood.noReference x vs s h hy fun he => ?_)).symm
            exact hs ((search_serviceEntryRe _).mpr he)
          | _ => rfl
      | _ => split <;> rfl

include htwins

omit hconf hstray hgood in
theorem eq_of_newPath_front {w : Value} (hp : leafAt conf p = some v) (hq : leafAt conf q = some w)
    (hpre : newPath p <+: newPath q) : p = q := by
  refine leafAt_front hp hq ?_
  match p, q with
  | [], _ => cases hp
  | [a], [] => cases hq
  | [a], [b] => exact hpre
  | [a], b :: n :: q => simpa [newPath, cons_prefix_cons] using hpre
  | a :: n :: p, [] => cases hq
  | a :: n :: p, [b] => simp [newPath, cons_prefix_cons] at hpre
  | a :: n :: p, b :: n' :: q =>
    simp only [newPath, cons_prefix_cons] at hpre ⊢
    obtain ⟨rfl, hn, hr⟩ := hpre
    refine ⟨rfl, ?_, hr⟩
    by_cases ha : a = processors
    · subst ha
      rw [if_pos rfl, if_pos rfl] at hn
      exact htwins n n' ⟨p, v, hp⟩ ⟨q, w, hq⟩ hn
    · rwa [if_neg ha, if_neg ha] at hn

theorem prefixFree_of_convertible : PrefixFree (rewriteKeys rule conf) := by
  rintro ⟨k₁, v₁⟩ h₁ ⟨k₂, v₂⟩ h₂ hpre
  obtain ⟨j₁, w₁, hw₁, hru₁⟩ := mem_rewriteKeys hconf h₁
  obtain ⟨j₂, w₂, hw₂, hru₂⟩ := mem_rewriteKeys hconf h₂
  obtain ⟨k₁', v₁', hr₁, hs₁, -⟩ := written_of_convertible hconf hstray hgood hw₁
  obtain ⟨k₂', v₂', hr₂, hs₂, -⟩ := written_of_convertible hconf hstray hgood hw₂
  rw [joinKey_splitKey, hru₁] at hr₁
  rw [joinKey_splitKey, hru₂] at hr₂
  cases hr₁
  cases hr₂
  rw [hs₁, hs₂] at hpre
  have heq := eq_of_newPath_front htwins hw₁ hw₂ hpre
  rw [← joinKey_splitKey k₁, ← joinKey_splitKey k₂, hs₁, hs₂, heq]

section
variable {conf' : Fields} (hrewrites : Rewrites rule conf conf')
include hrewrites

theorem leafAt_newPath (h : leafAt conf p = some v) : ∃ v', leafAt conf' (newPath p) = some v' ∧
      (∀ n q, p = processors :: n :: q → v' = v) ∧ (∀ x, p = pipeline x → v' = renamedEntry v) := by
  obtain ⟨k', v', hrul, hs, hv⟩ := written_of_convertible hconf hstray hgood h
  refine ⟨v', ?_, hv⟩
  rw [← hs, hrewrites.leafAt keepsLeaves_rule hconf (prefixFree_of_convertible hconf hstray htwins hgood)]
  refine find_rewriteKeys hconf ((splitKey_joinKey hconf h).symm ▸ h) hrul fun j w w' hw hru => le_of_eq ?_
  obtain ⟨k'', v'', hr, hs', -⟩ := written_of_convertible hconf hstray hgood hw
  rw [joinKey_splitKey, hru] at hr
  cases hr
  have heq := eq_of_newPath_front htwins hw h (by rw [← hs, ← hs'])
  rw [← heq, joinKey_splitKey]

theorem exists_of_leafAt {p' : List Str} (h : leafAt conf' p' = some v') :
    ∃ p v, leafAt conf p = some v ∧ newPath p = p' ∧
      (∀ n q, p = processors :: n :: q → v' = v) ∧ (∀ x, p = pipeline x → v' = renamedEntry v) := by
  have hs := splitKey_joinKey (hrewrites.clean keepsLeaves_rule hconf) h
  rw [← hs, hrewrites.leafAt keepsLeaves_rule hconf (prefixFree_of_convertible hconf hstray htwins hgood)] at h
  obtain ⟨k, v, hv, hru⟩ := mem_rewriteKeys hconf (find_mem _ _ _ h)
  obtain ⟨k'', v'', hr, hp, hva⟩ := written_of_convertible hconf hstray hgood hv
  rw [joinKey_splitKey, hru] at hr
  cases hr
  exact ⟨splitKey k, v, hv, hp.symm.trans hs, hva⟩

theorem keeps_of_convertible (hde : ReferencesDefined conf) : KeepsReferences conf conf' := by
  have hd (n : Str) (q : List Str) (v : Value) (h : leafAt conf (processors :: n :: q) = some v) :
      leafAt conf' (processors :: renamed n :: q) = some v := by
    obtain ⟨v', hv', hva, -⟩ := leafAt_newPath hconf hstray htwins hgood hrewrites h
    rw [newPath, if_pos rfl, hva n q rfl] at hv'
    exact hv'
  have hpi (x : Str) : newPath (pipeline x) = pipeline x := by
    rw [pipeline, newPath, if_neg (by decide)]
  have hnr (x : Str) (vs' : List Value) (h : leafAt conf' (pipeline x) = some (.list vs')) :
      ∃ vs, vs' = vs.map renamedElem ∧ leafAt conf (pipeline x) = some (.list vs) := by
    obtain ⟨p, v, hv, hp, -, hva⟩ := exists_of_leafAt hconf hstray htwins hgood hrewrites h
    obtain rfl := newPath_eq_pipeline hp
    replace hva := hva x rfl
    cases v with
    | list vs => exact ⟨vs, Value.list.inj hva, hv⟩
    | _ => cases hva
  constructor
  · exact hd
  · intro n' q v h
    obtain ⟨p, w, hw, hp, hva, -⟩ := exists_of_leafAt hconf hstray htwins hgood hrewrites h
    obtain ⟨n, rfl, hn⟩ := newPath_eq_processors hp
    exact ⟨n, hn, hva n q rfl ▸ hw⟩
  · intro x vs h
    obtain ⟨v', hv', -, hva⟩ := leafAt_newPath hconf hstray htwins hgood hrewrites h
    rw [hpi, hva x rfl] at hv'
    exact hv'
  · exact hnr
  · intro x vs' n' h hn'
    obtain ⟨vs, rfl, hvs⟩ := hnr x vs' h
    obtain ⟨w, hw, heq⟩ := mem_map.mp hn'
    cases w with
    | str n =>
      cases heq
      obtain ⟨q, v, hq⟩ := hde x vs n hvs hw
      exact ⟨q, v, hd n q v hq⟩
    | _ => cases heq

end

end

end

theorem renameK8sTagger_iff (conf : Fields) (hconf : Clean conf) (hdefined : ReferencesDefined conf)
    (hstray : NoStray conf) (htwins : NoTwins conf) :
    (∀ conf', Rewrites rule conf conf' → KeepsReferences conf conf') ↔ Convertible conf := by
  constructor
  · intro h
    obtain ⟨conf', hr⟩ := exists_longFirstResult keepsLeaves_rule hconf
    exact convertible_of_keeps hconf hstray (h conf' hr.rewrites) htwins
      fun p' v' => hr.written keepsLeaves_rule hconf
  · intro hgood conf' hrewrites
    exact keeps_of_convertible hconf hstray htwins hgood hrewrites hdefined

section Example

def withProcessor (n : Str) : Fields :=
  [(processors, .map [(n, .null)]),
    ("service", .map [("pipelines", .map [("traces", .map [(processors, .list [.str n])])])])]

theorem clean_withProcessor {n : Str} (hn : ':' ∉ n) : Clean (withProcessor n) := by
  refine clean_of_plain ?_
  have htop : (keys (withProcessor n)).Nodup := by
    rw [show keys (withProcessor n) = [processors, "service"] from rfl]
    decide
  rw [plain, decide_eq_true htop]
  simp [withProcessor, plain, plainFields, Lib.keys, hn]
  decide

theorem leafAt_withProcessor {n : Str} {p : List Str} {v : Value} (hn : ':' ∉ n)
    (h : leafAt (withProcessor n) p = some v) :
    p = [processors, n] ∧ v = .null ∨ p = pipeline "traces" ∧ v = .list [.str n] := by
  have hc := clean_withProcessor hn
  have hmem := (mem_flattenFields hc.nodup hc.distinct p v).mpr h
  have hf : flattenFields (withProcessor n) =
    [([processors, n], .null), (pipeline "traces", .list [.str n])] := by rfl
  simpa [hf] using hmem

theorem referencesDefined_withProcessor {n : Str} (hn : ':' ∉ n) : ReferencesDefined (withProcessor n) := by
  intro x vs s h hs
  rcases leafAt_withProcessor hn h with ⟨hp, -⟩ | ⟨-, hvs⟩
  · exact absurd (cons.inj hp).1 (by decide)
  · cases hvs
    cases mem_singleton.mp hs
    exact ⟨[], .null, by simp [withProcessor, leafAt, leafOf, find, isNode]⟩

def dashed : Str := "k8s_tagger/my-name"

def truncated : Str := "k8sattributes/my"

/-- The definition is renamed as a whole, and the reference is cut at the dash. -/
theorem convert_dashed : ReferencesDefined (withProcessor dashed) ∧
    leafAt (convert (withProcessor dashed)) (pipeline "traces") = some (.list [.str truncated]) ∧
      ¬ Defined (convert (withProcessor dashed)) truncated := by
  have hk : allKeys (withProcessor dashed) =
    ["processors::k8s_tagger/my-name", "service::pipelines::traces::processors"] := by rfl
  have hc : convert (withProcessor dashed) = [(processors, .map [("k8sattributes/my-name", .null)]),
    ("service", .map [("pipelines", .map [("traces", .map [(processors, .list [.str truncated])])])])] := by
    rw [convert, rewriteKeys, hk, sortStrings_of_sorted (by decide)]
    rfl
  refine ⟨referencesDefined_withProcessor (by decide), ?_, ?_⟩
  · rw [hc]
    rfl
  · rintro ⟨q, v, hv⟩
    rw [hc] at hv
    cases hv

def prod : Str := "k8s_tagger/prod"

theorem renameK8sTagger_prod : KeepsReferences (withProcessor prod) (convert (withProcessor prod)) := by
  have hc : ':' ∉ prod := by decide
  have hl {p : List Str} {v : Value} (h : leafAt (withProcessor prod) p = some v) := leafAt_withProcessor hc h
  have hn {n : Str} {q : List Str} {v : Value} (h : leafAt (withProcessor prod) (processors :: n :: q) = some v) :
      n = prod ∧ q = [] ∧ v = .null := by
    rcases hl h with ⟨hp, hv⟩ | ⟨hp, -⟩
    · cases hp
      exact ⟨rfl, rfl, hv⟩
    · exact absurd (cons.inj hp).1 (by decide)
  refine (renameK8sTagger_iff (withProcessor prod) (clean_withProcessor hc)
    (referencesDefined_withProcessor hc) ?_ ?_).mpr ?_ _ ⟨_, Perm.refl _, rfl⟩
  · intro k v h hi
    rw [← joinKey_splitKey k] at hi ⊢
    rcases hl h with ⟨hp, -⟩ | ⟨hp, -⟩
    · rw [hp]
      decide
    · rw [hp] at hi
      exact absurd hi (by decide)
  · rintro n n' ⟨q, v, h⟩ ⟨q', v', h'⟩ -
    rw [(hn h).1, (hn h').1]
  · have hre {x : Str} {vs : List Value} {s : Str} (h : leafAt (withProcessor prod) (pipeline x) = some (.list vs))
        (hs : .str s ∈ vs) : x = "traces" ∧ s = prod := by
      rcases hl h with ⟨hp, -⟩ | ⟨hp, hvs⟩
      · exact absurd (cons.inj hp).1 (by decide)
      · cases hp
        cases hvs
        exact ⟨rfl, Value.str.inj (mem_singleton.mp hs)⟩
    constructor
    · intro r q v h
      obtain ⟨hr, rfl, -⟩ := hn h
      have hr' : r = "/prod" := append_cancel_left (hr.trans (show prod = k8sTagger ++ "/prod" from rfl))
      rw [hr']
      decide
    · intro n q vs s h
      cases (hn h).2.2
    · intro x vs s h hs _
      obtain ⟨-, rfl⟩ := hre h hs
      exact .inr (.inr ⟨"prod", [], by decide, all_eq_true.mp (by decide), by simp, rfl⟩)
    · intro x vs s h hs hse
      obtain ⟨rfl, -⟩ := hre h hs
      exact absurd ((search_serviceEntryRe _).mp (by decide)) hse

end Example

end RenameK8sTagger

end Collector.ConfigConverter
