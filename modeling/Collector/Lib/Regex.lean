import Collector.Lib.Assoc

/-!
# Regular expressions with groups

A pattern gives the ways in which it matches at the front of a text, the preferred one first. `search` takes the
leftmost match.
-/

namespace Collector.Lib.Regex

open List Option

variable {α : Type}

structure Match (α : Type) where
  text : List α
  /-- What the groups took, by their numbers. -/
  groups : List (Nat × List α)
  rest : List α

def Match.group (m : Match α) (i : Nat) : List α := (find i m.groups).getD []

abbrev Pattern (α : Type) := List α → List (Match α)

variable {rest s w t : List α} {g : List (Nat × List α)} {p : α → Bool} {r : Pattern α} {m : Match α} {d : α}
def strip [DecidableEq α] : List α → List α → Option (List α)
  | [], s => some s
  | _ :: _, [] => none
  | a :: w, b :: s => if a = b then strip w s else none

def lit [DecidableEq α] (w : List α) : Pattern α := fun s =>
  match strip w s with
  | some rest => [⟨w, [], rest⟩]
  | none => []

def Match.cons (a : α) (m : Match α) : Match α := { m with text := a :: m.text }

def plus (p : α → Bool) : Pattern α
  | [] => []
  | a :: s => if p a then (plus p s).map (Match.cons a) ++ [⟨[a], [], s⟩] else []

def one (p : α → Bool) : Pattern α
  | [] => []
  | a :: s => if p a then [⟨[a], [], s⟩] else []

def upTo (p : α → Bool) : Nat → Pattern α
  | n + 1, a :: s => (if p a then (upTo p n s).map (Match.cons a) else []) ++ [⟨[], [], a :: s⟩]
  | _, s => [⟨[], [], s⟩]

def seq (r r' : Pattern α) : Pattern α := fun s =>
  (r s).flatMap fun m => (r' m.rest).map fun m' => ⟨m.text ++ m'.text, m.groups ++ m'.groups, m'.rest⟩

def alt (r r' : Pattern α) : Pattern α := fun s => r s ++ r' s

def opt (r : Pattern α) : Pattern α := fun s => r s ++ [⟨[], [], s⟩]

def times (r : Pattern α) : Nat → Pattern α
  | 0 => fun _ => []
  | n + 1 => seq r (opt (times r n))

def some1 (r : Pattern α) : Pattern α := fun s => times r s.length s

def group (i : Nat) (r : Pattern α) : Pattern α := fun s =>
  (r s).map fun m => { m with groups := m.groups ++ [(i, m.text)] }

def search (r : Pattern α) : List α → Option (Match α)
  | [] => (r []).head?
  | a :: s => (r (a :: s)).head?.or (search r s)

def star (p : α → Bool) : Pattern α := opt (plus p)

def whole (r : Pattern α) (s : List α) : Option (Match α) := (r s).find? fun m => m.rest.isEmpty

/-- The first `skip` elements belong to a match. -/
def countFrom (r : Pattern α) : (skip : Nat) → List α → Nat
  | _, [] => 0
  | skip + 1, _ :: s => countFrom r skip s
  | 0, a :: s => match (r (a :: s)).head? with
    | some m => countFrom r (m.text.length - 1) s + 1
    | none => countFrom r 0 s

def count (r : Pattern α) (s : List α) : Nat := countFrom r 0 s

/-! ## Classes of characters -/

def word (c : Char) : Bool :=
  ('0' ≤ c && c ≤ '9') || ('A' ≤ c && c ≤ 'Z') || ('a' ≤ c && c ≤ 'z') || c == '_'

def dot (c : Char) : Bool := c != '\n'

/-! ## What a pattern matches -/

section
variable [DecidableEq α]

theorem strip_eq_some : strip w s = some rest ↔ s = w ++ rest := by
  induction w generalizing s with
  | nil => simp [strip, eq_comm]
  | cons a w ih =>
    cases s with
    | nil => simp [strip]
    | cons b s =>
      rw [strip]
      by_cases h : a = b
      · simp [h, ih]
      · simp [h, Ne.symm h]

theorem mem_lit : ⟨t, g, rest⟩ ∈ lit w s ↔ t = w ∧ g = [] ∧ s = w ++ rest := by
  rw [lit]
  constructor
  · intro h
    split at h
    · rename_i rest hst
      cases mem_singleton.mp h
      exact ⟨rfl, rfl, strip_eq_some.mp hst⟩
    · cases h
  · rintro ⟨rfl, rfl, hs⟩
    rw [strip_eq_some.mpr hs]
    exact mem_singleton_self _

theorem lit_append (w rest : List α) : lit w (w ++ rest) = [⟨w, [], rest⟩] := by
  rw [lit, strip_eq_some.mpr rfl]

theorem lit_eq_nil (h : ¬ w <+: s) : lit w s = [] := by
  refine eq_nil_iff_forall_not_mem.mpr fun ⟨t, g, rest⟩ hm => h ?_
  exact ⟨rest, (mem_lit.mp hm).2.2.symm⟩

theorem seq_lit (w rest : List α) (r : Pattern α) :
    seq (lit w) r (w ++ rest) = (r rest).map fun m => ⟨w ++ m.text, m.groups, m.rest⟩ := by
  simp [seq, lit_append]

end

theorem mem_plus : ⟨t, g, rest⟩ ∈ plus p s ↔ g = [] ∧ s = t ++ rest ∧ t ≠ [] ∧ ∀ a ∈ t, p a = true := by
  induction s generalizing t with
  | nil => simp +contextual [plus]
  | cons b s ih =>
    rw [plus]
    constructor
    · intro h
      split_ifs at h with hb
      · rcases mem_append.mp h with h | h
        · obtain ⟨m, hm, he⟩ := mem_map.mp h
          cases he
          obtain ⟨hg, rfl, -, hall⟩ := ih.mp hm
          exact ⟨hg, rfl, by simp, by simpa [hb] using hall⟩
        · cases mem_singleton.mp h
          simpa using hb
      · cases h
    · rintro ⟨rfl, hs, hne, hall⟩
      cases t with
      | nil => exact absurd rfl hne
      | cons a t =>
        obtain ⟨rfl, rfl⟩ := cons.inj hs
        rw [if_pos (hall b mem_cons_self), mem_append]
        cases t with
        | nil => exact .inr (mem_singleton_self _)
        | cons a t =>
          refine .inl (mem_map.mpr ⟨⟨a :: t, [], rest⟩, ih.mpr ⟨rfl, rfl, by simp, ?_⟩, rfl⟩)
          exact fun x hx => hall x (.tail _ hx)

theorem mem_one {a : α} (ha : p a = true) (s : List α) : ⟨[a], [], s⟩ ∈ one p (a :: s) := by
  rw [one, if_pos ha]
  exact mem_singleton_self _

variable {r' : Pattern α}

theorem mem_seq : ⟨t, g, rest⟩ ∈ seq r r' s ↔ ∃ t₁ g₁ mid t₂ g₂, ⟨t₁, g₁, mid⟩ ∈ r s ∧ ⟨t₂, g₂, rest⟩ ∈ r' mid ∧
      t = t₁ ++ t₂ ∧ g = g₁ ++ g₂ := by
  rw [seq, mem_flatMap]
  constructor
  · rintro ⟨m, hm, h⟩
    obtain ⟨m', hm', he⟩ := mem_map.mp h
    cases he
    exact ⟨_, _, _, _, _, hm, hm', rfl, rfl⟩
  · rintro ⟨t₁, g₁, mid, t₂, g₂, hm, hm', rfl, rfl⟩
    exact ⟨_, hm, mem_map.mpr ⟨_, hm', rfl⟩⟩

theorem mem_seq_lit [DecidableEq α] (w : List α)
    (h : ⟨t, g, rest⟩ ∈ r s) : ⟨w ++ t, g, rest⟩ ∈ seq (lit w) r (w ++ s) := by
  rw [seq_lit]
  exact mem_map.mpr ⟨_, h, rfl⟩

theorem mem_opt : m ∈ opt r s ↔ m ∈ r s ∨ m = ⟨[], [], s⟩ := by
  rw [opt, mem_append, mem_singleton]

theorem mem_star : ⟨t, g, rest⟩ ∈ star p s ↔ g = [] ∧ s = t ++ rest ∧ ∀ a ∈ t, p a = true := by
  rw [star, mem_opt, mem_plus]
  constructor
  · rintro (⟨hg, hs, -, hall⟩ | h)
    · exact ⟨hg, hs, hall⟩
    · cases h
      exact ⟨rfl, rfl, by simp⟩
  · rintro ⟨rfl, rfl, hall⟩
    by_cases ht : t = []
    · exact .inr (by simp [ht])
    · exact .inl ⟨rfl, rfl, ht, hall⟩

theorem mem_group {i : Nat} : ⟨t, g, rest⟩ ∈ group i r s ↔ ∃ g', ⟨t, g', rest⟩ ∈ r s ∧ g = g' ++ [(i, t)] := by
  rw [group, List.mem_map]
  constructor
  · rintro ⟨m, hm, he⟩
    cases he
    exact ⟨_, hm, rfl⟩
  · rintro ⟨g', hm, rfl⟩
    exact ⟨_, hm, rfl⟩

theorem mem_one_iff : ⟨t, g, rest⟩ ∈ one p s ↔ ∃ a, p a = true ∧ t = [a] ∧ g = [] ∧ s = a :: rest := by
  constructor
  · intro h
    cases s with
    | nil => cases h
    | cons a s =>
      rw [one] at h
      split at h
      case isTrue ha =>
        cases mem_singleton.mp h
        exact ⟨a, ha, rfl, rfl, rfl⟩
      case isFalse => cases h
  · rintro ⟨a, ha, rfl, rfl, rfl⟩
    exact mem_one ha rest

def Words (r : Pattern α) (ws : List (List α)) : Prop :=
  ∀ s t g rest, ⟨t, g, rest⟩ ∈ r s ↔ t ∈ ws ∧ g = [] ∧ s = t ++ rest

/-- The pattern takes the texts with `L`, wherever they stand, and has no groups. -/
def Spells (r : Pattern α) (L : List α → Prop) : Prop :=
  ∀ s t g rest, ⟨t, g, rest⟩ ∈ r s ↔ L t ∧ g = [] ∧ s = t ++ rest

theorem Spells.seq {L L' : List α → Prop} (h : Spells r L) (h' : Spells r' L') :
    Spells (seq r r') fun t => ∃ u v, L u ∧ L' v ∧ t = u ++ v := by
  intro s t g rest
  rw [mem_seq]
  constructor
  · rintro ⟨u, g₁, mid, v, g₂, hm, hm', rfl, rfl⟩
    obtain ⟨hu, rfl, rfl⟩ := (h _ _ _ _).mp hm
    obtain ⟨hv, rfl, rfl⟩ := (h' _ _ _ _).mp hm'
    exact ⟨⟨u, v, hu, hv, rfl⟩, rfl, by rw [append_assoc]⟩
  · rintro ⟨⟨u, v, hu, hv, rfl⟩, rfl, rfl⟩
    exact ⟨u, [], v ++ rest, v, [], (h _ _ _ _).mpr ⟨hu, rfl, by rw [append_assoc]⟩,
      (h' _ _ _ _).mpr ⟨hv, rfl, rfl⟩, rfl, rfl⟩

theorem Spells.opt {L : List α → Prop} (h : Spells r L) : Spells (opt r) fun t => t = [] ∨ L t := by
  intro s t g rest
  rw [mem_opt, h s]
  constructor
  · rintro (⟨ht, hg, hs⟩ | h)
    · exact ⟨.inr ht, hg, hs⟩
    · cases h
      exact ⟨.inl rfl, rfl, rfl⟩
  · rintro ⟨rfl | ht, rfl, rfl⟩
    · exact .inr rfl
    · exact .inl ⟨ht, rfl, rfl⟩

variable (p : α → Bool)

theorem spells_star : Spells (star p) fun t => ∀ a ∈ t, p a = true := by
  intro s t g rest
  rw [mem_star, ← and_assoc, and_comm]

theorem spells_one : Spells (one p) fun t => ∃ a, p a = true ∧ t = [a] := by
  intro s t g rest
  rw [mem_one_iff]
  constructor
  · rintro ⟨a, ha, rfl, rfl, rfl⟩
    exact ⟨⟨a, ha, rfl⟩, rfl, rfl⟩
  · rintro ⟨⟨a, ha, rfl⟩, rfl, rfl⟩
    exact ⟨a, ha, rfl, rfl, rfl⟩

theorem Words.lit [DecidableEq α] (w : List α) : Words (lit w) [w] := by
  intro s t g rest
  rw [mem_lit, mem_singleton]
  constructor
  · rintro ⟨rfl, rfl, rfl⟩
    exact ⟨rfl, rfl, rfl⟩
  · rintro ⟨rfl, rfl, rfl⟩
    exact ⟨rfl, rfl, rfl⟩

variable {ws : List (List α)}

theorem Words.spells (h : Words r ws) : Spells r (· ∈ ws) := h

theorem Words.alt {ws' : List (List α)} (h : Words r ws) (h' : Words r' ws') : Words (alt r r') (ws ++ ws') := by
  intro s t g rest
  rw [Regex.alt, mem_append, h s, h' s, mem_append, or_and_right]

theorem Words.seq {ws' : List (List α)} (h : Words r ws) (h' : Words r' ws') :
    Words (seq r r') (ws.flatMap fun w => ws'.map (w ++ ·)) := by
  intro s t g rest
  rw [h.spells.seq h'.spells]
  simp [eq_comm]

/-! ## The preferred match -/

theorem opt_ne_nil (r : Pattern α) (s : List α) : opt r s ≠ [] := by simp [opt]

theorem plus_eq_nil {s : List α} (h : s.takeWhile p = []) : plus p s = [] := by
  cases s with
  | nil => rfl
  | cons b s =>
    have hb : p b = false := by
      by_contra hb
      simp [takeWhile_cons, hb] at h
    simp [plus, hb]

theorem upTo_ne_nil (n : Nat) (s : List α) : upTo p n s ≠ [] := by
  cases n <;> cases s <;> simp [upTo]

theorem head?_plus {s : List α} (h : s.takeWhile p ≠ []) :
    (plus p s).head? = some ⟨s.takeWhile p, [], s.dropWhile p⟩ := by
  induction s with
  | nil => exact absurd rfl h
  | cons a s ih =>
    rw [plus]
    by_cases ha : p a = true
    · rw [if_pos ha, takeWhile_cons_of_pos ha, dropWhile_cons_of_pos ha]
      by_cases hs : s.takeWhile p = []
      · have hd : s.dropWhile p = s := by
          have := takeWhile_append_dropWhile (p := p) (l := s)
          rwa [hs] at this
        rw [plus_eq_nil p hs, hs, hd]
        rfl
      · rw [head?_append, head?_map, ih hs]
        rfl
    · exact absurd (takeWhile_cons_of_neg ha) h

theorem head?_seq (r r' : Pattern α) (hr' : ∀ s, r' s ≠ []) (s : List α) :
    (seq r r' s).head? = (r s).head?.bind fun m => (r' m.rest).head?.map fun m' =>
      ⟨m.text ++ m'.text, m.groups ++ m'.groups, m'.rest⟩ := by
  rw [seq]
  cases h : r s with
  | nil => rfl
  | cons m ms =>
    obtain ⟨m', ms', hm'⟩ := exists_cons_of_ne_nil (hr' m.rest)
    simp [hm']

theorem head?_upTo (n : Nat) (s : List α) :
    (upTo p n s).head? = some ⟨(s.takeWhile p).take n, [], s.drop ((s.takeWhile p).take n).length⟩ := by
  induction n generalizing s with
  | zero => cases s <;> simp [upTo]
  | succ n ih =>
    cases s with
    | nil => rfl
    | cons a s =>
      rw [upTo]
      by_cases ha : p a = true
      · rw [if_pos ha, head?_append, head?_map, ih, takeWhile_cons_of_pos ha]
        rfl
      · rw [if_neg ha, takeWhile_cons_of_neg ha]
        rfl

/-! ## The leftmost match -/

theorem search_of_head? (h : (r s).head? = some m) : search r s = some m := by
  cases s with
  | nil => exact h
  | cons a s => rw [search, h]; rfl

theorem search_eq_some (h : search r s = some m) : ∃ suf, suf <:+ s ∧ (r suf).head? = some m := by
  induction s with
  | nil => exact ⟨[], suffix_rfl, h⟩
  | cons a s ih =>
    rw [search, or_eq_some_iff] at h
    rcases h with h | ⟨-, h⟩
    · exact ⟨a :: s, suffix_rfl, h⟩
    · obtain ⟨suf, hsuf, hm⟩ := ih h
      exact ⟨suf, hsuf.trans (suffix_cons a s), hm⟩

theorem search_eq_none : search r s = none ↔ ∀ suf, suf <:+ s → r suf = [] := by
  induction s with
  | nil => simp [search]
  | cons a s ih =>
    rw [search, or_eq_none_iff, ih, head?_eq_none_iff]
    constructor
    · rintro ⟨h, hs⟩ suf hsuf
      rcases suffix_cons_iff.mp hsuf with rfl | hsuf
      · exact h
      · exact hs suf hsuf
    · intro h
      exact ⟨h _ suffix_rfl, fun suf hsuf => h suf (hsuf.trans (suffix_cons a s))⟩

theorem exists_mem_of_search : (search r s).isSome ↔ ∃ pre suf m, s = pre ++ suf ∧ m ∈ r suf := by
  rw [← not_iff_not, not_isSome_iff_eq_none, search_eq_none]
  constructor
  · rintro h ⟨pre, suf, m, rfl, hm⟩
    rw [h suf (suffix_append pre suf)] at hm
    cases hm
  · rintro h suf ⟨pre, rfl⟩
    refine eq_nil_iff_forall_not_mem.mpr fun m hm => h ⟨pre, suf, m, rfl, hm⟩

/-! ## The only match -/

theorem head?_of_unique (hm : m ∈ r s) (hu : ∀ m' ∈ r s, m' = m) : (r s).head? = some m := by
  cases h : r s with
  | nil => simp [h] at hm
  | cons m' ms =>
    rw [h] at hu
    rw [hu m' (.head _)]
    rfl

theorem whole_of_unique (hm : m ∈ r s) (hr : m.rest = [])
    (hu : ∀ m' ∈ r s, m'.rest = [] → m' = m) : whole r s = some m := by
  have hs : ((r s).find? fun m => m.rest.isEmpty).isSome :=
    find?_isSome.mpr ⟨m, hm, by simp [hr]⟩
  obtain ⟨m', hm'⟩ := isSome_iff_exists.mp hs
  rw [whole, hm', hu m' (mem_of_find?_eq_some hm') (by simpa using find?_some hm')]

theorem whole_isSome : (whole r s).isSome ↔ ∃ t g, ⟨t, g, []⟩ ∈ r s := by
  rw [whole, find?_isSome]
  constructor
  · rintro ⟨⟨t, g, rest⟩, hm, hr⟩
    obtain rfl : rest = [] := isEmpty_iff.mp hr
    exact ⟨t, g, hm⟩
  · rintro ⟨t, g, hm⟩
    exact ⟨_, hm, rfl⟩

theorem Spells.whole {L : List α → Prop} (h : Spells r L) : (whole r s).isSome ↔ L s := by
  rw [whole_isSome]
  constructor
  · rintro ⟨t, g, hm⟩
    obtain ⟨ht, -, rfl⟩ := (h _ _ _ _).mp hm
    rwa [append_nil]
  · intro hs
    exact ⟨s, [], (h _ _ _ _).mpr ⟨hs, rfl, (append_nil s).symm⟩⟩

theorem whole_eq_none (h : ∀ m ∈ r s, m.rest ≠ []) : whole r s = none := by
  rw [whole, find?_eq_none]
  intro m hm
  simpa using h m hm

/-! ## Counting -/

def firstLength (r : Pattern α) (s : List α) : Option Nat := (r s).head?.map fun m => m.text.length

/-- What follows `u` has no part in the matches that begin in it. -/
structure Settled (r : Pattern α) (u v : List α) : Prop where
  same : ∀ y, y <:+ u → y ≠ [] → firstLength r (y ++ v) = firstLength r y
  fits : ∀ y, y <:+ u → ∀ n, firstLength r y = some n → n ≤ y.length

theorem countFrom_zero_cons (r : Pattern α) (a : α) (s : List α) :
    countFrom r 0 (a :: s) = match firstLength r (a :: s) with
      | some n => countFrom r (n - 1) s + 1
      | none => countFrom r 0 s := by
  rw [countFrom, firstLength]
  cases (r (a :: s)).head? <;> rfl

variable {u v : List α} {k : Nat}

theorem countFrom_append (h : Settled r u v) (hk : k ≤ u.length) :
    countFrom r k (u ++ v) = countFrom r k u + countFrom r 0 v := by
  induction u generalizing k with
  | nil =>
    cases k with
    | zero => simp [countFrom]
    | succ k => simp at hk
  | cons a u ih =>
    have hu : Settled r u v :=
      ⟨fun y hy => h.same y (hy.trans (suffix_cons a u)), fun y hy => h.fits y (hy.trans (suffix_cons a u))⟩
    cases k with
    | succ k => exact ih hu (Nat.le_of_succ_le_succ hk)
    | zero =>
      have hs : firstLength r (a :: (u ++ v)) = firstLength r (a :: u) :=
        h.same (a :: u) suffix_rfl (cons_ne_nil a u)
      rw [cons_append, countFrom_zero_cons, countFrom_zero_cons, hs]
      cases hf : firstLength r (a :: u) with
      | none => exact ih hu (Nat.zero_le _)
      | some n =>
        have hn := h.fits (a :: u) suffix_rfl n hf
        rw [length_cons] at hn
        simp only
        rw [ih hu (by omega), Nat.add_right_comm]

theorem count_append (h : Settled r u v) : count r (u ++ v) = count r u + count r v :=
  countFrom_append h (Nat.zero_le _)

theorem count_eq_zero (hnil : r [] = []) : count r s = 0 ↔ search r s = none := by
  unfold count
  induction s with
  | nil => simp [countFrom, search, hnil]
  | cons a s ih =>
    rw [countFrom, search]
    cases (r (a :: s)).head? with
    | none => simpa using ih
    | some m => simp

theorem countFrom_of_length_le (r : Pattern α) (h : s.length ≤ k) : countFrom r k s = 0 := by
  induction s generalizing k with
  | nil => rfl
  | cons a s ih =>
    cases k with
    | zero => simp at h
    | succ k => exact ih (Nat.le_of_succ_le_succ h)

theorem count_eq_one (h : ∀ y, y <:+ s → ∀ n, firstLength r y = some n → y.length ≤ n)
    (hpos : count r s ≠ 0) : count r s = 1 := by
  unfold count at hpos ⊢
  induction s with
  | nil => exact absurd rfl hpos
  | cons a s ih =>
    rw [countFrom_zero_cons] at hpos ⊢
    cases hf : firstLength r (a :: s) with
    | none =>
      rw [hf] at hpos
      exact ih (fun y hy => h y (hy.trans (suffix_cons a s))) hpos
    | some n =>
      have hn := h (a :: s) suffix_rfl n hf
      rw [length_cons] at hn
      simp only
      rw [countFrom_of_length_le r (by omega)]

/-! ### Words -/

theorem exists_of_suffix_append_singleton {y : List α} (hy : y <:+ u ++ [d]) (hne : y ≠ []) :
    ∃ y', y = y' ++ [d] := by
  obtain ⟨x, hx⟩ := hy
  obtain ⟨y', e, rfl⟩ := eq_nil_or_concat y |>.resolve_left hne
  refine ⟨y', ?_⟩
  rw [concat_eq_append, ← append_assoc] at hx
  rw [concat_eq_append, (append_inj_right' hx rfl)]

theorem eq_of_append_cons {x x' r r' : List α} (hx : d ∉ x) (hx' : d ∉ x') (h : x ++ d :: r = x' ++ d :: r') :
    x = x' ∧ r = r' := by
  rcases append_eq_append_iff.mp h with ⟨a, rfl, ha⟩ | ⟨a, rfl, ha⟩
  all_goals
    cases a with
    | nil => simpa [eq_comm] using ha
    | cons e a =>
      obtain ⟨rfl, -⟩ := cons.inj ha
      simp at hx hx'

theorem prefix_of_mark {y : List α} (hd : d ∉ w) (h : w ++ [d] <+: y ++ [d] ++ v) : w ++ [d] <+: y ++ [d] := by
  obtain ⟨rest, h⟩ := h
  rw [append_assoc, append_assoc, append_eq_append_iff] at h
  rcases h with ⟨a, rfl, ha⟩ | ⟨a, rfl, ha⟩
  · cases a with
    | nil => exact ⟨[], by simp⟩
    | cons e a =>
      obtain ⟨rfl, -⟩ := cons.inj ha
      exact ⟨a ++ [d], by simp⟩
  · cases a with
    | nil => exact ⟨[], by simp⟩
    | cons e a =>
      obtain ⟨rfl, -⟩ := cons.inj ha
      exact absurd (by simp) hd

theorem infix_append_cons {a b : List α} {c : α} (hc : c ∉ w) (h : w <:+: a ++ c :: b) : w <:+: a ∨ w <:+: b := by
  obtain ⟨p, q, h⟩ := h
  rcases append_eq_append_iff.mp h with ⟨x, hx, -⟩ | ⟨x, hx, hb⟩
  · exact .inl ⟨p, x, hx.symm⟩
  · cases x with
    | nil => exact .inl ⟨p, [], by simpa using hx⟩
    | cons e x =>
      obtain ⟨rfl, rfl⟩ := cons.inj hb
      rcases append_eq_append_iff.mp hx with ⟨y, -, hy⟩ | ⟨y, -, hy⟩
      · exact absurd (by simp [hy]) hc
      · cases y with
        | nil =>
          rw [nil_append] at hy
          exact absurd (by simp [← hy]) hc
        | cons e y =>
          rw [(cons.inj hy).2]
          exact .inr ⟨y, q, rfl⟩

section
variable [DecidableEq α]

theorem firstLength_lit (w s : List α) : firstLength (lit w) s = if w <+: s then some w.length else none := by
  unfold firstLength
  by_cases h : w <+: s
  · obtain ⟨rest, rfl⟩ := h
    rw [lit_append, if_pos (prefix_append w rest)]
    rfl
  · rw [lit_eq_nil h, if_neg h]
    rfl

theorem settled_lit (hd : d ∉ w) (u v : List α) : Settled (lit (w ++ [d])) (u ++ [d]) v where
  same := by
    intro y hy hne
    have hiff : w ++ [d] <+: y ++ v ↔ w ++ [d] <+: y := by
      obtain ⟨y', rfl⟩ := exists_of_suffix_append_singleton hy hne
      exact ⟨prefix_of_mark hd, fun h => h.trans (prefix_append _ v)⟩
    rw [firstLength_lit, firstLength_lit]
    simp only [hiff]
  fits := by
    intro y hy n hn
    rw [firstLength_lit] at hn
    split at hn
    case isTrue hp => cases hn; exact hp.length_le
    case isFalse => cases hn

theorem search_lit_isSome : (search (lit w) s).isSome ↔ w <:+: s := by
  rw [exists_mem_of_search]
  constructor
  · rintro ⟨pre, suf, ⟨t, g, rest⟩, rfl, hm⟩
    exact ⟨pre, rest, by rw [(mem_lit.mp hm).2.2, append_assoc]⟩
  · rintro ⟨pre, post, rfl⟩
    exact ⟨pre, w ++ post, ⟨w, [], post⟩, by simp, mem_lit.mpr ⟨rfl, rfl, rfl⟩⟩

end

end Collector.Lib.Regex
