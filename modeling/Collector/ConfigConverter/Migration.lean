import Collector.ConfigConverter.DeprecatedKeys

/-!
# The deprecated keys of every instance

The three converters run one after the other. The expressions must match the paths of the deprecated settings and no
others, and the `tls` sections must have room.
-/

namespace Collector.ConfigConverter

open Lib Confmap Strings List Option

variable {name k' : Str} {v' : Value} {x : List Str}

namespace Setting

variable (f : Setting)

def Instance (n : Str) : Prop := ∃ name, ComponentID.unmarshalText n = .ok ⟨f.typ, name⟩

def WordInstance (n : Str) : Prop := ∃ name, SlashWord name ∧ n = f.typ ++ name

def Below (p : List Str) : Prop := ∃ n d q, p = f.sec :: n :: d :: q ∧ f.Instance n ∧ d ∈ f.ks

def target (n d : Str) : List Str := [f.sec, n, tls, d]

variable {f}
variable {n d : Str} {g : Setting} {q p : List Str} {v : Value}

theorem typ_eq (hf : f.Instance n) (hg : g.Instance n) : f.typ = g.typ := by
  obtain ⟨a, ha⟩ := hf
  obtain ⟨b, hb⟩ := hg
  rw [ha] at hb
  simp only [Except.ok.injEq, ComponentID.mk.injEq] at hb
  exact hb.1

theorem tls_notMem : tls ∉ f.ks := fun h => absurd (f.ks_tls tls h) (by decide)

theorem not_below_target (n d : Str) (x : List Str) : ¬ g.Below (f.target n d ++ x) := by
  rintro ⟨n', d', q, heq, -, hd'⟩
  simp only [target, cons_append, cons.injEq] at heq
  exact g.tls_notMem (heq.2.2.1 ▸ hd')

theorem not_target_front {n' d' : Str} (hd : d ∈ f.ks) : ¬ g.target n' d' <+: f.sec :: n :: d :: q := by
  rintro ⟨x, hx⟩
  simp only [target, cons_append, cons.injEq] at hx
  exact tls_notMem (hx.2.2.1 ▸ hd)

theorem splitKey_tlsKey (hna : SlashWord name) (hd : d ∈ f.ks) :
    splitKey (f.tlsKey name d) = f.target (f.typ ++ name) d := by
  have hn : ':' ∉ f.typ ++ name := by simp [f.typ_colon, hna.colon]
  rw [tlsKey, start, splitKey, append_assoc, cons_append, cons_append, splitDouble_cons f.sec_colon,
    ← append_assoc, splitDouble_cons hn, splitDouble_cons (by decide),
    splitDouble_of_noDouble (noDouble_of_notMem (f.ks_colon d hd))]
  rfl

theorem Matches.parts {k : Str} (h : f.Matches k) : ∃ ps x name d r qs, SlashWord name ∧ d ∈ f.ks ∧
    splitKey k = ps ++ x :: (f.typ ++ name) :: (d ++ r) :: qs := by
  obtain ⟨pre, name, d, post, hna, hd, rfl⟩ := h
  have hl : (pre ++ f.sec).getLast? ≠ some ':' := by
    intro hl
    rw [getLast?_append_of_ne_nil _ f.sec_ne] at hl
    exact f.sec_colon (mem_of_getLast? hl)
  have hn : ':' ∉ f.typ ++ name := by simp [f.typ_colon, hna.colon]
  have hk : pre ++ (f.start ++ (name ++ ':' :: ':' :: (d ++ post))) =
      (pre ++ f.sec) ++ ':' :: ':' :: ((f.typ ++ name) ++ ':' :: ':' :: (d ++ post)) := by
    simp [start]
  obtain ⟨ps, x, hps⟩ : ∃ ps x, splitDouble ':' (pre ++ f.sec) = ps ++ [x] :=
    ⟨_, _, (dropLast_append_getLast (splitDouble_ne_nil ':' (pre ++ f.sec))).symm⟩
  obtain ⟨r, qs, hqs⟩ := exists_cons_of_ne_nil (splitDouble_ne_nil ':' post)
  refine ⟨ps, x, name, d, r, qs, hna, hd, ?_⟩
  rw [hk, splitKey, splitDouble_append_double _ _ _ hl, splitDouble_cons hn,
    splitDouble_append_head _ (f.ks_colon d hd), hqs, hps, append_assoc]
  rfl

theorem Matches.of_three {k a e : Str} (h : f.Matches k) (hk : splitKey k = [a, n, e]) :
    f.WordInstance n ∧ ∃ d ∈ f.ks, d <+: e := by
  obtain ⟨ps, x, name, d, r, qs, hn, hd, hp⟩ := h.parts
  rw [hk] at hp
  cases ps with
  | nil =>
    simp only [nil_append, cons.injEq] at hp
    exact ⟨⟨name, hn, hp.2.1⟩, d, hd, hp.2.2.1 ▸ prefix_append _ _⟩
  | cons p ps =>
    have hlen := congrArg length hp
    simp only [length_cons, length_append, length_nil] at hlen
    omega

theorem not_matches_target (hn : f.WordInstance n) (hd : d ∈ f.ks) : ¬ g.Matches (joinKey (f.target n d)) := by
  intro h
  obtain ⟨ps, x, name, d', r, qs, -, hd', hp⟩ := h.parts
  obtain ⟨name', hna', rfl⟩ := hn
  rw [← splitKey_tlsKey hna' hd, joinKey_splitKey, splitKey_tlsKey hna' hd, target] at hp
  match ps, hp with
  | [], hp =>
    simp only [nil_append, cons.injEq] at hp
    have hd := g.ks_tls d' hd'
    cases d' with
    | nil => cases hd
    | cons c d' =>
      obtain rfl : 't' = c := (cons.inj hp.2.2.1).1
      exact absurd (any_some.symm.trans hd) (by decide)
  | [_], hp =>
    simp only [cons_append, nil_append, cons.injEq] at hp
    exact g.typ_tls (hp.2.2.1 ▸ prefix_append _ _)
  | _ :: _ :: ps, hp =>
    have hlen := congrArg length hp
    simp only [length_cons, length_append, length_nil] at hlen
    omega

theorem joinKey_below (q : List Str) : ∃ post,
    joinKey (f.sec :: (f.typ ++ name) :: d :: q) = f.start ++ (name ++ ':' :: ':' :: (d ++ post)) := by
  have hd : joinKey (d :: q) = d ++ joinDouble ':' ([] :: q) := by
    rw [joinKey, ← joinDouble_append_head, append_nil]
  refine ⟨joinDouble ':' ([] :: q), ?_⟩
  rw [← hd]
  simp [joinKey, joinDouble, start]

theorem matches_below (hn : f.WordInstance n) (hd : d ∈ f.ks) (q : List Str) :
    f.Matches (joinKey (f.sec :: n :: d :: q)) := by
  obtain ⟨name, hna, rfl⟩ := hn
  obtain ⟨post, hp⟩ := f.joinKey_below q
  exact ⟨[], name, d, post, hna, hd, hp⟩

theorem joinKey_le_target (hd : d ∈ f.ks) (n d' : Str) (q : List Str) :
    joinKey (f.sec :: n :: d :: q) ≤ joinKey (f.target n d') := by
  have hs (x : Str) (q : List Str) :
      joinKey (f.sec :: n :: x :: q) = (f.sec ++ ':' :: ':' :: n ++ [':', ':']) ++ joinKey (x :: q) := by
    simp [joinKey, joinDouble]
  have hlt : joinKey (d :: q) < joinKey [tls, d'] := by
    have hh := f.ks_tls d hd
    cases d with
    | nil => cases hh
    | cons c d =>
      have hj : joinKey ((c :: d) :: q) = c :: joinKey (d :: q) := joinDouble_append_head ':' [c] d q
      rw [hj]
      exact cons_lt_cons_iff.mpr (.inl (decide_eq_true_eq.mp hh))
  rw [target, hs, hs]
  exact le_of_lt (append_left_lt hlt)

section
variable {rule : KeyRule} {conf conf' : Fields}

theorem Pass.keepsLeaves (hpass : f.Pass rule) : KeepsLeaves rule := by
  intro k v k' v' hv hr
  by_cases hma : f.Matches k
  · obtain ⟨name, d, -, -, hw⟩ := hpass.matched k v hma
    rw [hw, write] at hr
    split at hr
    · cases hr
      exact hv
    · cases hr
  · rw [hpass.other k v hma] at hr
    cases hr
    exact hv

theorem Pass.written (hpass : f.Pass rule)
    (hr : rule (joinKey p) v = some (k', v')) : v' = v ∧ ((k' = joinKey p ∧ ¬ f.Matches (joinKey p)) ∨
      (f.Matches (joinKey p) ∧ f.moved = true ∧ ∃ n d, f.WordInstance n ∧ d ∈ f.ks ∧ splitKey k' = f.target n d)) := by
  by_cases hma : f.Matches (joinKey p)
  · obtain ⟨name, d, hn, hd, hw⟩ := hpass.matched _ v hma
    rw [hw, write] at hr
    split at hr
    · rename_i hmo
      cases hr
      exact ⟨rfl, .inr ⟨hma, hmo, _, d, ⟨name, hn, rfl⟩, hd, splitKey_tlsKey hn hd⟩⟩
    · cases hr
  · rw [hpass.other _ v hma] at hr
    cases hr
    exact ⟨rfl, .inl ⟨rfl, hma⟩⟩

theorem Pass.below (hpass : f.Pass rule) (hmo : f.moved = true) (hn : f.WordInstance n) (hd : d ∈ f.ks)
    (q : List Str) (v : Value) :
    ∃ k', splitKey k' = f.target n d ∧ rule (joinKey (f.sec :: n :: d :: q)) v = some (k', v) := by
  obtain ⟨name, hna, rfl⟩ := hn
  obtain ⟨post, hp⟩ := f.joinKey_below q
  refine ⟨_, splitKey_tlsKey hna hd, ?_⟩
  rw [hp, hpass.front name d post v hna hd, write, if_pos hmo]

end

end Setting

open Setting

/-! ## What the converters are for -/

def IsSet (conf : Fields) (p : List Str) : Prop := ∃ q v, leafAt conf (p ++ q) = some v

/-- A value below a deprecated key, which the `tls` section does not set. -/
def Setting.Moves (f : Setting) (conf : Fields) (n d : Str) (q : List Str) (v : Value) : Prop :=
  f.moved = true ∧ f.Instance n ∧ d ∈ f.ks ∧ leafAt conf (f.sec :: n :: d :: q) = some v ∧ ¬ IsSet conf (f.target n d)

/-- The settings of every instance have gone or moved, and the rest is as it was. -/
structure Migrated (fs : List Setting) (conf conf' : Fields) : Prop where
  gone : ∀ f ∈ fs, ∀ p, f.Below p → leafAt conf' p = none
  found : ∀ f ∈ fs, ∀ n d q v, f.Moves conf n d q v → leafAt conf' (f.target n d ++ q) = some v
  kept : ∀ p v, (∀ f ∈ fs, ¬ f.Below p) → leafAt conf p = some v → leafAt conf' p = some v
  new : ∀ p v, leafAt conf' p = some v →
    leafAt conf p = some v ∨ ∃ f ∈ fs, ∃ n d q, p = f.target n d ++ q ∧ f.Moves conf n d q v

/-- The expression matches just the deprecated keys, and each has a place in its `tls` section. -/
structure Migratable (f : Setting) (conf : Fields) : Prop where
  exact : ∀ p v, leafAt conf p = some v → f.Matches (joinKey p) → f.Below p
  word : ∀ n d q v, f.Instance n → d ∈ f.ks → leafAt conf (f.sec :: n :: d :: q) = some v → f.WordInstance n
  room : f.moved = true → ∀ n d q v, f.Instance n → d ∈ f.ks → leafAt conf (f.sec :: n :: d :: q) = some v →
    (∃ w, leafAt conf (f.target n d) = some w) ∨
      (q = [] ∧ ¬ IsSet conf (f.target n d) ∧ leafAt conf [f.sec, n, tls] = none)

/-! ## One converter -/

section
variable {f : Setting} {rule : KeyRule} {conf conf' : Fields}

theorem Migratable.eq_target (hm : Migratable f conf) (hmo : f.moved = true) {w : Value}
    (hn : f.Instance n) (hd : d ∈ f.ks) (hb : leafAt conf (f.sec :: n :: d :: q) = some v)
    (hl : leafAt conf p = some w) (hp : p <+: f.target n d) : p = f.target n d := by
  rcases hm.room hmo n d q v hn hd hb with ⟨u, hu⟩ | ⟨-, -, htls⟩
  · exact leafAt_front hl hu hp
  · rcases prefix_concat_iff.mp (show p <+: [f.sec, n, tls] ++ [d] from hp) with heq | hp
    · exact heq
    rcases prefix_concat_iff.mp (show p <+: [f.sec, n] ++ [tls] from hp) with rfl | hp
    · rw [cons_append, cons_append, nil_append, htls] at hl
      cases hl
    · have hlen := hp.length_le
      have hpre : p <+: f.sec :: n :: d :: q := hp.trans (prefix_append [f.sec, n] (d :: q))
      simp [leafAt_front hl hb hpre] at hlen

section
variable (hconf : Clean conf) (hpass : f.Pass rule) (hm : Migratable f conf)
include hconf hpass hm

theorem Migratable.written (hl : leafAt conf p = some v) (hr : rule (joinKey p) v = some (k', v')) : v' = v ∧
      ((splitKey k' = p ∧ ¬ f.Below p) ∨
        (f.moved = true ∧ ∃ n d q, p = f.sec :: n :: d :: q ∧ f.Instance n ∧ d ∈ f.ks ∧
            splitKey k' = f.target n d)) := by
  obtain ⟨hv, hc⟩ := hpass.written hr
  refine ⟨hv, ?_⟩
  rcases hc with ⟨rfl, hma⟩ | ⟨hma, hmo, -⟩
  · refine .inl ⟨splitKey_joinKey hconf hl, ?_⟩
    rintro ⟨n, d, q, rfl, hn, hd⟩
    exact hma (matches_below (hm.word n d q v hn hd hl) hd q)
  · obtain ⟨n, d, q, rfl, hn, hd⟩ := hm.exact p v hl hma
    obtain ⟨k, hk, hr'⟩ := hpass.below hmo (hm.word n d q v hn hd hl) hd q v
    rw [hr'] at hr
    cases hr
    exact .inr ⟨hmo, n, d, q, rfl, hn, hd, hk⟩

theorem Migratable.prefixFree : PrefixFree (rewriteKeys rule conf) := by
  rintro ⟨k₁, v₁⟩ he₁ ⟨k₂, v₂⟩ he₂ hpre
  obtain ⟨j₁, w₁, hw₁, hr₁⟩ := mem_rewriteKeys hconf he₁
  obtain ⟨j₂, w₂, hw₂, hr₂⟩ := mem_rewriteKeys hconf he₂
  rw [← joinKey_splitKey j₁] at hr₁
  rw [← joinKey_splitKey j₂] at hr₂
  suffices heq : splitKey k₁ = splitKey k₂ by
    change k₁ = k₂
    rw [← joinKey_splitKey k₁, heq, joinKey_splitKey]
  rcases (hm.written hconf hpass hw₁ hr₁).2 with ⟨hk₁, -⟩ | ⟨hmo, n₁, d₁, q₁, hp₁, hn₁, hd₁, hk₁⟩ <;>
    rcases (hm.written hconf hpass hw₂ hr₂).2 with ⟨hk₂, -⟩ | ⟨hmo, n₂, d₂, q₂, hp₂, hn₂, hd₂, hk₂⟩
  · rw [hk₁, hk₂] at hpre ⊢
    exact leafAt_front hw₁ hw₂ hpre
  · rw [hk₁, hk₂] at hpre ⊢
    rw [hp₂] at hw₂
    exact hm.eq_target hmo hn₂ hd₂ hw₂ hw₁ hpre
  · rw [hk₁, hk₂] at hpre ⊢
    rw [hp₁] at hw₁
    rcases hm.room hmo n₁ d₁ q₁ w₁ hn₁ hd₁ hw₁ with ⟨u, hu⟩ | ⟨-, hset, -⟩
    · exact leafAt_front hu hw₂ hpre
    · obtain ⟨x, hx⟩ := hpre
      exact absurd ⟨x, w₂, hx ▸ hw₂⟩ hset
  · exact hpre.eq_of_length (by rw [hk₁, hk₂]; rfl)

variable (h : Rewrites rule conf conf')
include h

theorem Migratable.leafAt_kept (hp : ¬ f.Below p) (hl : leafAt conf p = some v) : leafAt conf' p = some v := by
  have hs := splitKey_joinKey hconf hl
  rw [← hs, h.leafAt hpass.keepsLeaves hconf (hm.prefixFree hconf hpass)]
  rw [← hs] at hl
  refine find_rewriteKeys hconf hl (hpass.other _ v fun hma => hp (hm.exact p v (hs ▸ hl) hma)) ?_
  intro j w w' hw hr
  rw [← joinKey_splitKey j] at hr
  rcases (hm.written hconf hpass hw hr).2 with ⟨hj, -⟩ | ⟨-, n, d, q, hj, -, hd, ht⟩
  · rw [hs] at hj
    rw [hj, joinKey_splitKey]
  -- what moves to the same place comes before `p`
  · rw [hs] at ht
    rw [ht, ← joinKey_splitKey j, hj]
    exact joinKey_le_target hd n d q

theorem Migratable.leafAt_found (hmov : f.Moves conf n d q v) : q = [] ∧ leafAt conf' (f.target n d) = some v := by
  obtain ⟨hmo, hn, hd, hl, hset⟩ := hmov
  have hro (q : List Str) (v : Value) (hl : leafAt conf (f.sec :: n :: d :: q) = some v) : q = [] := by
    rcases hm.room hmo n d q v hn hd hl with ⟨w, hw⟩ | ⟨hq, -⟩
    · exact absurd ⟨[], w, by rwa [append_nil]⟩ hset
    · exact hq
  obtain rfl := hro q v hl
  refine ⟨rfl, ?_⟩
  obtain ⟨k', hk', hr⟩ := hpass.below hmo (hm.word n d [] v hn hd hl) hd [] v
  rw [← hk', h.leafAt hpass.keepsLeaves hconf (hm.prefixFree hconf hpass)]
  refine find_rewriteKeys hconf (by rwa [splitKey_joinKey hconf hl]) hr ?_
  intro j w w' hw hr'
  rw [← joinKey_splitKey j] at hr'
  rcases (hm.written hconf hpass hw hr').2 with ⟨hj, -⟩ | ⟨-, n', d', q', hj, -, -, ht⟩
  · exact absurd ⟨[], w, by rwa [append_nil, ← hk', hj]⟩ hset
  · rw [hk', target, target] at ht
    simp only [cons.injEq, and_true, true_and] at ht
    obtain ⟨rfl, rfl⟩ := ht
    rw [hj] at hw
    obtain rfl := hro q' w hw
    rw [← joinKey_splitKey j, hj]

theorem Migratable.leafAt_origin (hp : leafAt conf' p = some v) :
    ∃ p₀, leafAt conf p₀ = some v ∧ ((p = p₀ ∧ ¬ f.Below p) ∨
      (f.moved = true ∧ ∃ n d q, p₀ = f.sec :: n :: d :: q ∧ f.Instance n ∧ d ∈ f.ks ∧ p = f.target n d)) := by
  have hs := splitKey_joinKey (h.clean hpass.keepsLeaves hconf) hp
  rw [← hs, h.leafAt hpass.keepsLeaves hconf (hm.prefixFree hconf hpass)] at hp
  obtain ⟨j, w, hw, hr⟩ := mem_rewriteKeys hconf (find_mem _ _ _ hp)
  rw [← joinKey_splitKey j] at hr
  obtain ⟨rfl, hc⟩ := hm.written hconf hpass hw hr
  rw [hs] at hc
  refine ⟨_, hw, ?_⟩
  rcases hc with ⟨rfl, hb⟩ | hc
  · exact .inl ⟨rfl, hb⟩
  · exact .inr hc

theorem Migratable.migrated : Migrated [f] conf conf' := by
  refine ⟨?_, ?_, ?_, ?_⟩
  · intro g hg p hp
    obtain rfl := mem_singleton.mp hg
    rw [eq_none_iff_forall_not_mem]
    intro v hv
    obtain ⟨p₀, -, ⟨-, hnot⟩ | ⟨-, n, d, q, -, -, -, rfl⟩⟩ := hm.leafAt_origin hconf hpass h hv
    · exact hnot hp
    · exact not_below_target n d [] (by rwa [append_nil])
  · intro g hg n d q v hmov
    obtain rfl := mem_singleton.mp hg
    obtain ⟨rfl, hl⟩ := hm.leafAt_found hconf hpass h hmov
    rwa [append_nil]
  · exact fun p v hp => hm.leafAt_kept hconf hpass h (hp f mem_cons_self)
  · intro p v hp
    obtain ⟨p₀, hp₀, ⟨rfl, -⟩ | ⟨hmo, n, d, q, rfl, hn, hd, rfl⟩⟩ := hm.leafAt_origin hconf hpass h hp
    · exact .inl hp₀
    · rcases hm.room hmo n d q v hn hd hp₀ with ⟨w, hw⟩ | ⟨rfl, hset, -⟩
      · have hb : ¬ f.Below (f.target n d) := fun h => not_below_target n d [] (by rwa [append_nil])
        have hT := hm.leafAt_kept hconf hpass h hb hw
        rw [hp] at hT
        cases hT
        exact .inl hw
      · exact .inr ⟨f, mem_cons_self, n, d, [], (append_nil _).symm, hmo, hn, hd, hp₀, hset⟩

end

/-! ## One converter after the other -/

variable {fs : List Setting} {conf₁ conf₂ : Fields}
variable (h : Migrated fs conf conf₁) (htyp : ∀ g ∈ fs, g.typ ≠ f.typ)
include h htyp

theorem Migrated.below_iff (hn : f.Instance n) (hd : d ∈ f.ks) :
    leafAt conf₁ (f.sec :: n :: d :: q) = some v ↔ leafAt conf (f.sec :: n :: d :: q) = some v := by
  constructor
  · intro hl
    rcases h.new _ v hl with hl | ⟨g, -, n', d', q', heq, -⟩
    · exact hl
    · exact absurd ⟨q', heq.symm⟩ (not_target_front hd)
  · refine h.kept _ v ?_
    rintro g hg ⟨n', d', q', heq, hn', -⟩
    simp only [cons.injEq] at heq
    obtain ⟨-, rfl, -⟩ := heq
    exact htyp g hg (typ_eq hn' hn)

theorem Migrated.isSet_iff (hn : f.Instance n) : IsSet conf₁ (f.target n d) ↔ IsSet conf (f.target n d) := by
  constructor
  · rintro ⟨x, w, hl⟩
    rcases h.new _ w hl with hl | ⟨g, hg, n', d', q', heq, hmo⟩
    · exact ⟨x, w, hl⟩
    · simp only [target, cons_append, cons.injEq] at heq
      obtain ⟨-, rfl, -⟩ := heq
      exact absurd (typ_eq hmo.2.1 hn) (htyp g hg)
  · rintro ⟨x, w, hl⟩
    exact ⟨x, w, h.kept _ w (fun g _ => not_below_target n d x) hl⟩

theorem Migrated.moves_iff : f.Moves conf₁ n d q v ↔ f.Moves conf n d q v := by
  simp only [Setting.Moves]
  refine and_congr_right fun _ => and_congr_right fun hn => and_congr_right fun hd => ?_
  rw [h.below_iff htyp hn hd, h.isSet_iff htyp hn]

theorem Migratable.later (hdo : ∀ g ∈ fs, Migratable g conf) (hm : Migratable f conf) : Migratable f conf₁ := by
  refine ⟨?_, ?_, ?_⟩
  · intro p v hl hma
    rcases h.new p v hl with hl | ⟨g, hg, n, d, q, rfl, hmo, hn, hd, hb, hset⟩
    · exact hm.exact p v hl hma
    · rcases (hdo g hg).room hmo n d q v hn hd hb with ⟨w, hw⟩ | ⟨rfl, -⟩
      · exact absurd ⟨[], w, by rwa [append_nil]⟩ hset
      · rw [append_nil] at hma
        exact absurd hma (not_matches_target ((hdo g hg).word n d [] v hn hd hb) hd)
  · intro n d q v hn hd hl
    exact hm.word n d q v hn hd ((h.below_iff htyp hn hd).mp hl)
  · intro hmo n d q v hn hd hl
    rcases hm.room hmo n d q v hn hd ((h.below_iff htyp hn hd).mp hl) with ⟨w, hw⟩ | ⟨hq, hset, htls⟩
    · exact .inl ⟨w, h.kept _ w (fun g _ => by simpa using not_below_target n d []) hw⟩
    · refine .inr ⟨hq, fun hset' => hset ((h.isSet_iff htyp hn).mp hset'), ?_⟩
      rw [eq_none_iff_forall_not_mem]
      intro w hw
      rcases h.new _ w hw with hw | ⟨g, -, n', d', q', heq, -⟩
      · rw [htls] at hw
        cases hw
      · simp [target] at heq

theorem Migrated.concat (h' : Migrated [f] conf₁ conf₂) : Migrated (fs ++ [f]) conf conf₂ := by
  have hf : f ∈ [f] := mem_cons_self
  refine ⟨?_, ?_, ?_, ?_⟩
  · intro g hg p hp
    rcases mem_append.mp hg with hg | hg
    · rw [eq_none_iff_forall_not_mem]
      intro v hv
      rcases h'.new p v hv with hv | ⟨_, -, n, d, q, rfl, -⟩
      · rw [h.gone g hg p hp] at hv
        cases hv
      · exact not_below_target n d q hp
    · exact h'.gone g hg p hp
  · intro g hg n d q v hmo
    rcases mem_append.mp hg with hg | hg
    · exact h'.kept _ v (fun _ _ => not_below_target n d q) (h.found g hg n d q v hmo)
    · obtain rfl := mem_singleton.mp hg
      exact h'.found g hf n d q v ((h.moves_iff htyp).mpr hmo)
  · intro p v hp hl
    have hl := h.kept p v (fun g hg => hp g (mem_append_left _ hg)) hl
    exact h'.kept p v (fun g hg => hp g (mem_append_right _ hg)) hl
  · intro p v hl
    rcases h'.new p v hl with hl | ⟨g, hg, n, d, q, rfl, hmo⟩
    · rcases h.new p v hl with hl | ⟨g, hg, hmo⟩
      · exact .inl hl
      · exact .inr ⟨g, mem_append_left _ hg, hmo⟩
    · obtain rfl := mem_singleton.mp hg
      exact .inr ⟨g, mem_append_right _ hg, n, d, q, rfl, (h.moves_iff htyp).mp hmo⟩

end

def Converts : List KeyRule → Fields → Fields → Prop
  | [], conf, conf' => conf' = conf
  | rule :: rules, conf, conf'' => ∃ conf', Rewrites rule conf conf' ∧ Converts rules conf' conf''

section
variable {fs : List Setting} {rules : List KeyRule} {conf conf' : Fields}

theorem migrated_of_converts (hpass : List.Forall₂ Pass fs rules) {done : List Setting} {conf₁ : Fields}
    (hconf : Clean conf₁) (hd : Migrated done conf conf₁)
    (htyp : (done ++ fs).Pairwise fun f g => f.typ ≠ g.typ) (hm : ∀ f ∈ done ++ fs, Migratable f conf)
    (h : Converts rules conf₁ conf') : Migrated (done ++ fs) conf conf' := by
  induction hpass generalizing done conf₁ with
  | nil =>
    cases h
    rwa [append_nil]
  | @cons f rule fs rules hf _ ih =>
    obtain ⟨conf₂, hr, h⟩ := h
    have hfd : ∀ g ∈ done, g.typ ≠ f.typ := fun g hg =>
      (pairwise_append.mp htyp).2.2 g hg f mem_cons_self
    have hmf : Migratable f conf₁ := (hm f (by simp)).later hd hfd fun g hg => hm g (mem_append_left _ hg)
    have hs := hd.concat hfd (hmf.migrated hconf hf hr)
    rw [append_cons] at htyp hm ⊢
    exact ih (hr.clean hf.keepsLeaves hconf) hs htyp hm h

end

/-!
## What the result demands

The results in which the longer keys were put in first show what goes wrong.
-/

section
variable {f : Setting} {rule : KeyRule} {conf conf' : Fields}

variable (hconf : Clean conf) (hpass : f.Pass rule) (h : LongFirstResult rule conf conf')
include hconf hpass h

theorem longFirst_origin (hl : leafAt conf' p = some v) : (leafAt conf p = some v ∧ ¬ f.Matches (joinKey p)) ∨
      ∃ n d, f.WordInstance n ∧ d ∈ f.ks ∧ p = f.target n d := by
  obtain ⟨p₀, v₀, k, hp₀, hr, rfl⟩ := h.written hpass.keepsLeaves hconf hl
  obtain ⟨rfl, ⟨rfl, hma⟩ | ⟨-, -, n, d, hn, hd, hk⟩⟩ := hpass.written hr
  · rw [splitKey_joinKey hconf hp₀]
    exact .inl ⟨hp₀, hma⟩
  · exact .inr ⟨n, d, hn, hd, hk⟩

theorem longFirst_survives (hl : leafAt conf p = some v) (hma : ¬ f.Matches (joinKey p))
    (ht : ∀ n d, ¬ f.target n d <+: p) : leafAt conf' p = some v := by
  have hs := splitKey_joinKey hconf hl
  have hc : ¬ Covered (rewriteKeys rule conf) (joinKey p) := by
    rintro ⟨⟨k, w⟩, he, hpre, hne⟩
    rw [hs] at hpre
    obtain ⟨j, u, hu, hr⟩ := mem_rewriteKeys hconf he
    rw [← joinKey_splitKey j] at hr
    obtain ⟨-, ⟨rfl, -⟩ | ⟨-, -, n, d, -, -, hk⟩⟩ := hpass.written hr
    · rw [joinKey_splitKey] at hpre
      exact hne (congrArg joinKey (leafAt_front hu hl hpre))
    · exact ht n d (hk ▸ hpre)
  rw [← hs, h.kept _ hc]
  refine find_rewriteKeys hconf (by rwa [hs]) (hpass.other _ v hma) ?_
  intro j w w' hw hr
  rw [← joinKey_splitKey j] at hr
  obtain ⟨-, ⟨hj, -⟩ | ⟨-, -, n, d, -, -, hk⟩⟩ := hpass.written hr
  · rw [hj, joinKey_splitKey]
  · rw [hs] at hk
    exact absurd (hk ▸ prefix_rfl) (ht n d)

theorem longFirst_blocked (hmo : f.moved = true) (hn : f.WordInstance n) (hd : d ∈ f.ks)
    (hl : leafAt conf (f.sec :: n :: d :: q) = some v) (hx : x ≠ []) :
    leafAt conf' (f.target n d ++ x) = none := by
  obtain ⟨k, hk, hr⟩ := hpass.below hmo hn hd q v
  obtain ⟨w, hw⟩ := mem_keys_rewriteKeys hconf (by rwa [splitKey_joinKey hconf hl]) hr
  rw [eq_none_iff_forall_not_mem]
  intro u hu
  have hs := splitKey_joinKey (h.rewrites.clean hpass.keepsLeaves hconf) hu
  have hc : Covered (rewriteKeys rule conf) (joinKey (f.target n d ++ x)) := by
    refine ⟨(k, w), hw, ?_, ?_⟩
    · rw [hs, hk]
      exact prefix_append _ _
    · rintro rfl
      rw [hs] at hk
      exact hx (append_right_eq_self.mp hk)
  rw [← hs, h.lost _ hc] at hu
  cases hu

end

def LongConverts : List KeyRule → Fields → Fields → Prop
  | [], conf, conf' => conf' = conf
  | rule :: rules, conf, conf'' => ∃ conf', LongFirstResult rule conf conf' ∧ LongConverts rules conf' conf''

section
variable {fs : List Setting} {rules : List KeyRule} {conf conf' : Fields}

theorem exists_longConverts (hpass : List.Forall₂ Pass fs rules) (hconf : Clean conf) :
    ∃ conf', LongConverts rules conf conf' := by
  induction hpass generalizing conf with
  | nil => exact ⟨conf, rfl⟩
  | cons hf _ ih =>
    obtain ⟨conf₁, h₁⟩ := exists_longFirstResult hf.keepsLeaves hconf
    obtain ⟨conf₂, h₂⟩ := ih (h₁.rewrites.clean hf.keepsLeaves hconf)
    exact ⟨conf₂, conf₁, h₁, h₂⟩

theorem LongConverts.converts (h : LongConverts rules conf conf') : Converts rules conf conf' := by
  induction rules generalizing conf with
  | nil => exact h
  | cons rule rules ih =>
    obtain ⟨conf₁, h₁, h⟩ := h
    exact ⟨conf₁, h₁.rewrites, ih h⟩

variable (hpass : List.Forall₂ Pass fs rules) (hconf : Clean conf)
  (h : LongConverts rules conf conf')
include hpass hconf h

theorem LongConverts.origin (hl : leafAt conf' p = some v) :
    (leafAt conf p = some v ∧ ∀ f ∈ fs, ¬ f.Matches (joinKey p)) ∨
      ∃ f ∈ fs, ∃ n d, f.WordInstance n ∧ d ∈ f.ks ∧ p = f.target n d := by
  induction hpass generalizing conf with
  | nil =>
    cases h
    exact .inl ⟨hl, by simp⟩
  | @cons f rule fs rules hf _ ih =>
    obtain ⟨conf₁, h₁, h⟩ := h
    rcases ih (h₁.rewrites.clean hf.keepsLeaves hconf) h with ⟨hl, hmat⟩ | ⟨g, hg, ht⟩
    · rcases longFirst_origin hconf hf h₁ hl with ⟨hl, hma⟩ | ht
      · exact .inl ⟨hl, forall_mem_cons.mpr ⟨hma, hmat⟩⟩
      · exact .inr ⟨f, mem_cons_self, ht⟩
    · exact .inr ⟨g, mem_cons_of_mem _ hg, ht⟩

theorem LongConverts.survives (hl : leafAt conf p = some v)
    (hma : ∀ f ∈ fs, ¬ f.Matches (joinKey p)) (ht : ∀ f ∈ fs, ∀ n d, ¬ f.target n d <+: p) :
    leafAt conf' p = some v := by
  induction hpass generalizing conf with
  | nil =>
    cases h
    exact hl
  | @cons f rule fs rules hf _ ih =>
    obtain ⟨conf₁, h₁, h⟩ := h
    rw [forall_mem_cons] at hma ht
    exact ih (h₁.rewrites.clean hf.keepsLeaves hconf) h (longFirst_survives hconf hf h₁ hl hma.1 ht.1) hma.2 ht.2

theorem LongConverts.blocked {f : Setting} (hf : f ∈ fs) (hmo : f.moved = true)
    (hn : f.WordInstance n) (hd : d ∈ f.ks) (hl : leafAt conf (f.sec :: n :: d :: q) = some v)
    (hma : ∀ g ∈ fs, g.Matches (joinKey (f.sec :: n :: d :: q)) → g = f) (hx : x ≠ []) :
    leafAt conf' (f.target n d ++ x) = none := by
  induction hpass generalizing conf with
  | nil => cases hf
  | @cons g rule fs rules hg hr ih =>
    obtain ⟨conf₁, h₁, h⟩ := h
    have hc := h₁.rewrites.clean hg.keepsLeaves hconf
    by_cases heq : g = f
    · subst heq
      rw [eq_none_iff_forall_not_mem]
      intro w hw
      rcases h.origin hr hc hw with ⟨hw, -⟩ | ⟨g', -, n', d', -, -, ht⟩
      · rw [longFirst_blocked hconf hg h₁ hmo hn hd hl hx] at hw
        cases hw
      · simp [target, hx] at ht
    · rw [forall_mem_cons] at hma
      have hf : f ∈ fs := (mem_cons.mp hf).resolve_left (Ne.symm heq)
      exact ih hc h hf (longFirst_survives hconf hg h₁ hl (fun hm => heq (hma.1 hm))
        fun n' d' => not_target_front hd) hma.2

/-- Nothing below a deprecated key matches but the key itself. -/
def NoNested (fs : List Setting) (conf : Fields) : Prop :=
  ∀ f ∈ fs, ∀ n d q v, f.Instance n → d ∈ f.ks → leafAt conf (f.sec :: n :: d :: q) = some v →
    ∀ g ∈ fs, g.Matches (joinKey (f.sec :: n :: d :: q)) → g = f ∧ f.WordInstance n

theorem migratable_of_migrated (hne : NoNested fs conf) (hmi : Migrated fs conf conf') :
    ∀ f ∈ fs, Migratable f conf := by
  intro f hf
  have hwo (n d q v) (hn : f.Instance n) (hd : d ∈ f.ks) (hl : leafAt conf (f.sec :: n :: d :: q) = some v) :
      f.WordInstance n := by
    by_contra hno
    have hs := h.survives hpass hconf hl
      (fun g hg hma => hno (hne f hf n d q v hn hd hl g hg hma).2) (fun g _ n' d' => not_target_front hd)
    rw [hmi.gone f hf _ ⟨n, d, q, rfl, hn, hd⟩] at hs
    cases hs
  refine ⟨?_, hwo, ?_⟩
  · intro p v hl hma
    by_contra hnot
    have hb : ∀ g ∈ fs, ¬ g.Below p := by
      rintro g hg ⟨n, d, q, rfl, hn, hd⟩
      obtain ⟨rfl, -⟩ := hne g hg n d q v hn hd hl f hf hma
      exact hnot ⟨n, d, q, rfl, hn, hd⟩
    rcases h.origin hpass hconf (hmi.kept p v hb hl) with ⟨-, hno⟩ | ⟨g, -, n, d, hn, hd, rfl⟩
    · exact hno f hf hma
    · exact not_matches_target hn hd hma
  · intro hmo n d q v hn hd hl
    by_cases ht : ∃ w, leafAt conf (f.target n d) = some w
    · exact .inl ht
    have hbl {x : List Str} (hx : x ≠ []) : leafAt conf' (f.target n d ++ x) = none :=
      h.blocked hpass hconf hf hmo (hwo n d q v hn hd hl) hd hl
        (fun g hg hma => (hne f hf n d q v hn hd hl g hg hma).1) hx
    have hset : ¬ IsSet conf (f.target n d) := by
      rintro ⟨x, w, hw⟩
      have hx : x ≠ [] := fun hx => ht ⟨w, by rwa [hx, append_nil] at hw⟩
      have hk := hmi.kept _ w (fun g _ => not_below_target n d x) hw
      rw [hbl hx] at hk
      cases hk
    have hfo := hmi.found f hf n d q v ⟨hmo, hn, hd, hl, hset⟩
    refine .inr ⟨?_, hset, ?_⟩
    · by_contra hq
      rw [hbl hq] at hfo
      cases hfo
    · rw [eq_none_iff_forall_not_mem]
      intro w hw
      have hb : ∀ g ∈ fs, ¬ g.Below [f.sec, n, tls] := by
        rintro g - ⟨n', d', q', heq, -, hd'⟩
        simp only [cons.injEq] at heq
        exact tls_notMem (heq.2.2.1 ▸ hd')
      have hk := hmi.kept _ w hb hw
      have hpre : [f.sec, n, tls] <+: f.target n d ++ q := prefix_append [f.sec, n, tls] (d :: q)
      have heq := leafAt_front hk hfo hpre
      simp [target] at heq

end

/-! ## The three converters -/

def deprecated : List Setting := [ballast, otlpInsecure, hecTLS]

/-- `RemoveBallastKey`, `MoveOTLPInsecureKey` and `MoveHecTLS`, in this order. -/
def convertDeprecated : Fields → Fields → Prop :=
  Converts [RemoveBallastKey.rule, MoveOTLPInsecureKey.rule, MoveHecTLS.rule]

/-- The deprecated keys of every instance go where they should just if the expressions match nothing else and nothing
stands in their way. -/
theorem convertDeprecated_iff {conf : Fields} (hconf : Clean conf) : ((∀ f ∈ deprecated, Migratable f conf) →
      ∀ conf', convertDeprecated conf conf' → Migrated deprecated conf conf') ∧
    (NoNested deprecated conf → (∀ conf', convertDeprecated conf conf' → Migrated deprecated conf conf') →
      ∀ f ∈ deprecated, Migratable f conf) := by
  have hpass : List.Forall₂ Pass deprecated [RemoveBallastKey.rule, MoveOTLPInsecureKey.rule, MoveHecTLS.rule] :=
    .cons pass_removeBallastKey (.cons pass_moveOTLPInsecureKey (.cons pass_moveHecTLS .nil))
  have htyp : deprecated.Pairwise fun f g => f.typ ≠ g.typ := by decide
  constructor
  · intro hm conf' h
    have hnil : Migrated [] conf conf := ⟨by simp, by simp, fun _ _ _ => id, fun _ _ => .inl⟩
    exact migrated_of_converts hpass hconf hnil htyp hm h
  · intro hn h
    obtain ⟨conf', hl⟩ := exists_longConverts hpass hconf
    exact migratable_of_migrated hpass hconf hl hn (h conf' hl.converts)

section Example

def hecConf (n : Str) : Fields :=
  [(exporters, .map [(n, .map [(MoveHecTLS.caFile, .str "ca.pem"), ("token", .str "t")])])]

theorem clean_hecConf (hn : ':' ∉ n) : Clean (hecConf n) := by
  refine clean_of_plain ?_
  simp [hecConf, plain, plainFields, Lib.keys, hn]
  decide

theorem leafAt_hecConf (hn : ':' ∉ n) (h : leafAt (hecConf n) p = some v) :
    p = [exporters, n, MoveHecTLS.caFile] ∨ p = [exporters, n, "token"] := by
  have hc := clean_hecConf hn
  have hmem := (mem_flattenFields hc.nodup hc.distinct p v).mpr h
  have hf : flattenFields (hecConf n) = [([exporters, n, MoveHecTLS.caFile], .str "ca.pem"),
    ([exporters, n, "token"], .str "t")] := by rfl
  rw [hf] at hmem
  simp only [mem_cons, Prod.mk.injEq, not_mem_nil, or_false] at hmem
  exact hmem.imp And.left And.left

theorem rewrites_of_sorted {rule : KeyRule} {conf conf' : Fields} (hs : (allKeys conf).Pairwise (· ≤ ·))
    (h : newFromStringMap (putAll ((allKeys conf).filterMap fun k => rule k (get conf k)) []) = conf') :
    Rewrites rule conf conf' := by
  refine ⟨_, Perm.refl _, ?_⟩
  rw [rewriteKeys, sortStrings_of_sorted hs, h]

def dashed : Str := "splunk_hec/my-name"

/-- The dash is no word character, so the CA file stays where it was. -/
theorem convertDeprecated_dashed : convertDeprecated (hecConf dashed) (hecConf dashed) ∧
    ¬ Migrated deprecated (hecConf dashed) (hecConf dashed) := by
  have hs : (allKeys (hecConf dashed)).Pairwise (· ≤ ·) := by
    rw [show allKeys (hecConf dashed) = ["exporters::splunk_hec/my-name::ca_file",
      "exporters::splunk_hec/my-name::token"] from rfl]
    decide
  refine ⟨⟨_, rewrites_of_sorted hs (by rfl), _, rewrites_of_sorted hs (by rfl), _,
    rewrites_of_sorted hs (by rfl), rfl⟩, fun h => ?_⟩
  have hg := h.gone hecTLS (by simp [deprecated]) [exporters, dashed, MoveHecTLS.caFile]
    ⟨dashed, _, [], rfl, ⟨"my-name", by rfl⟩, by decide⟩
  cases hg

theorem migratable_hecConf : ∀ f ∈ deprecated, Migratable f (hecConf MoveHecTLS.splunkHec) := by
  intro f hf
  have hc : ':' ∉ MoveHecTLS.splunkHec := by decide
  have hi : hecTLS.Instance MoveHecTLS.splunkHec := ⟨[], rfl⟩
  have hhec (h : f.typ <+: MoveHecTLS.splunkHec) : f = hecTLS := by
    simp only [deprecated, mem_cons, not_mem_nil, or_false] at hf
    rcases hf with rfl | rfl | rfl
    · exact absurd h (by decide)
    · exact absurd h (by decide)
    · rfl
  have hb {n d q v} (h : leafAt (hecConf MoveHecTLS.splunkHec) (f.sec :: n :: d :: q) = some v) :
      n = MoveHecTLS.splunkHec ∧ q = [] ∧ d ≠ tls := by
    rcases leafAt_hecConf hc h with hp | hp <;>
    · simp only [cons.injEq] at hp
      obtain ⟨-, rfl, rfl, rfl⟩ := hp
      exact ⟨rfl, rfl, by decide⟩
  refine ⟨?_, ?_, ?_⟩
  · intro p v hl hma
    have hs := splitKey_joinKey (clean_hecConf hc) hl
    rcases leafAt_hecConf hc hl with rfl | rfl <;> obtain ⟨⟨name, -, hn⟩, hd⟩ := hma.of_three hs <;>
      obtain rfl := hhec ⟨name, hn.symm⟩
    · exact ⟨_, _, [], rfl, hi, by decide⟩
    · exact absurd hd (by decide)
  · intro n d q v hn hd hl
    obtain ⟨rfl, -⟩ := hb hl
    rw [hhec (typ_eq hn hi ▸ prefix_rfl)]
    exact ⟨[], .inl rfl, rfl⟩
  · intro hmo n d q v hn hd hl
    obtain ⟨rfl, rfl, -⟩ := hb hl
    have htls (x : List Str) (w : Value) :
        leafAt (hecConf MoveHecTLS.splunkHec) (f.sec :: MoveHecTLS.splunkHec :: tls :: x) ≠ some w :=
      fun h => (hb h).2.2 rfl
    exact .inr ⟨rfl, fun ⟨x, w, hw⟩ => htls (d :: x) w hw, eq_none_iff_forall_not_mem.mpr (htls [])⟩

def hecMoved : Fields :=
  [(exporters, .map [(MoveHecTLS.splunkHec, .map [(tls, .map [(MoveHecTLS.caFile, .str "ca.pem")]),
    ("token", .str "t")])])]

theorem convertDeprecated_hec : Migrated deprecated (hecConf MoveHecTLS.splunkHec) hecMoved := by
  have hs : (allKeys (hecConf MoveHecTLS.splunkHec)).Pairwise (· ≤ ·) := by
    rw [show allKeys (hecConf MoveHecTLS.splunkHec) =
      ["exporters::splunk_hec::ca_file", "exporters::splunk_hec::token"] from rfl]
    decide
  exact (convertDeprecated_iff (clean_hecConf (by decide))).1 migratable_hecConf hecMoved
    ⟨_, rewrites_of_sorted hs (by rfl), _, rewrites_of_sorted hs (by rfl), _, rewrites_of_sorted hs (by rfl), rfl⟩

end Example

end Collector.ConfigConverter
