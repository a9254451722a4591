import Collector.DiscoveryReceiver.Sources

/-!
# The names of receivers for endpoints

The separators are looked for in the whole name, while the configuration is checked for them in the ID of the receiver
alone.
-/

namespace Collector.DiscoveryReceiver

open Lib Outcome Regex List Option

variable {u rest : Str}

def openTarget : Str := ['\x7b', 'e', 'n', 'd', 'p', 'o', 'i', 'n', 't', '=']

def closeTarget : Str := ['\x7d', '/']

def quoted (target : Str) : Str := '"' :: (target ++ ['"'])

def endpointPart (creatorName target endpointID : Str) : Str :=
  creatorName ++ (openTarget ++ (quoted target ++ (closeTarget ++ endpointID)))

def dynamicName (id : ComponentID) (creatorName target endpointID : Str) : Str :=
  id.string ++ ['/'] ++ (receiverCreator ++ ['/'] ++ endpointPart creatorName target endpointID)

structure Plain (s : Str) : Prop where
  openBrace : '\x7b' ∉ s
  closeBrace : '\x7d' ∉ s
  newline : '\n' ∉ s
  separator : ¬receiverCreator ++ ['/'] <:+: s

/-! ## The separator of the receiver creator -/

theorem slash_notMem_receiverCreator : '/' ∉ receiverCreator := by decide

theorem count_receiverCreator_append (u v : Str) : count receiverCreatorRegexp (u ++ ['/'] ++ v) =
      count receiverCreatorRegexp (u ++ ['/']) + count receiverCreatorRegexp v :=
  count_append (settled_lit slash_notMem_receiverCreator u v)

variable {s : Str}

theorem count_receiverCreator_eq_zero : count receiverCreatorRegexp s = 0 ↔ ¬receiverCreator ++ ['/'] <:+: s := by
  have hnil : receiverCreatorRegexp [] = [] := rfl
  rw [count_eq_zero hnil, ← search_lit_isSome, not_isSome_iff_eq_none]
  rfl

theorem count_receiverCreator_self : count receiverCreatorRegexp (receiverCreator ++ ['/']) = 1 := by decide

variable {creatorName target endpointID : Str}

theorem Plain.separator_endpointPart (hc : Plain creatorName) (ht : Plain target)
    (he : Plain endpointID) : ¬receiverCreator ++ ['/'] <:+: endpointPart creatorName target endpointID := by
  intro h
  have h1 : '\x7b' ∉ receiverCreator ++ ['/'] := by decide
  have h2 : '"' ∉ receiverCreator ++ ['/'] := by decide
  have h3 : '\x7d' ∉ receiverCreator ++ ['/'] := by decide
  rcases infix_append_cons h1 h with h | h
  · exact hc.separator h
  rcases infix_append_cons (a := ['e', 'n', 'd', 'p', 'o', 'i', 'n', 't', '=']) h2 h with h | h
  · exact absurd h.length_le (by decide)
  change receiverCreator ++ ['/'] <:+: target ++ ['"'] ++ (closeTarget ++ endpointID) at h
  rw [append_assoc] at h
  rcases infix_append_cons h2 h with h | h
  · exact ht.separator h
  rcases infix_append_cons (a := []) h3 h with h | h
  · exact absurd h.length_le (by decide)
  rcases infix_cons_iff.mp h with h | h
  · obtain ⟨rest, h⟩ := h
    exact absurd (cons.inj h).1 (by decide)
  · exact he.separator h

theorem splitBefore_append {w v : Str} {d : Char} (hd : d ∉ w) (hu : ¬w ++ [d] <:+: u ++ [d]) :
    splitBefore (w ++ [d]) (u ++ [d] ++ (w ++ [d] ++ v)) = some (u ++ [d], w ++ [d] ++ v) := by
  have hrun : ∀ y, y <:+ u ++ [d] → splitBefore (w ++ [d]) (y ++ (w ++ [d] ++ v)) = some (y, w ++ [d] ++ v) := by
    intro y
    induction y with
    | nil =>
      intro _
      have hp : (w ++ [d]).isPrefixOf (w ++ [d] ++ v) = true :=
        isPrefixOf_iff_prefix.mpr (prefix_append _ v)
      rw [nil_append, splitBefore.eq_def, if_pos hp]
    | cons c y ih =>
      intro hy
      have hno : (w ++ [d]).isPrefixOf (c :: y ++ (w ++ [d] ++ v)) = false := by
        rw [Bool.eq_false_iff, ne_eq, isPrefixOf_iff_prefix]
        intro hp
        obtain ⟨y', hy'⟩ := exists_of_suffix_append_singleton hy (cons_ne_nil c y)
        rw [hy'] at hp hy
        exact hu ((prefix_of_mark hd hp).isInfix.trans hy.isInfix)
      rw [splitBefore.eq_def, hno]
      simp only [Bool.false_eq_true, if_false, cons_append]
      rw [ih ((suffix_cons c y).trans hy)]
      rfl
  exact hrun _ suffix_rfl

/-! ## The separator of the target -/

variable {g : List (Nat × Str)}

theorem mem_endpointTargetRegexp {s t : Str} : ⟨t, g, rest⟩ ∈ endpointTargetRegexp s ↔
      ∃ x, '\x7d' ∉ x ∧ t = openTarget ++ (x ++ closeTarget) ∧ g = [] ∧
        s = openTarget ++ (x ++ (closeTarget ++ rest)) := by
  unfold endpointTargetRegexp
  simp only [mem_seq, mem_lit, mem_star]
  constructor
  · rintro ⟨t₁, g₁, mid, t₂, g₂, ⟨rfl, rfl, rfl⟩, ⟨x, g₃, mid', t₄, g₄, ⟨rfl, rfl, hall⟩, ⟨rfl, rfl, rfl⟩, rfl, rfl⟩,
      rfl, rfl⟩
    refine ⟨x, fun hmem => ?_, rfl, rfl, rfl⟩
    simpa using hall _ hmem
  · rintro ⟨x, hx, rfl, rfl, rfl⟩
    refine ⟨_, _, _, _, _, ⟨rfl, rfl, rfl⟩, ⟨x, [], _, _, _, ⟨rfl, rfl, ?_⟩, ⟨rfl, rfl, rfl⟩, rfl, rfl⟩, rfl, rfl⟩
    intro a ha
    have hne : a ≠ '\x7d' := fun heq => hx (heq ▸ ha)
    simpa using hne

theorem firstLength_endpointTarget {n : Nat} : firstLength endpointTargetRegexp s = some n ↔
      ∃ x rest, '\x7d' ∉ x ∧ n = (openTarget ++ (x ++ closeTarget)).length ∧
        s = openTarget ++ (x ++ (closeTarget ++ rest)) := by
  unfold firstLength
  constructor
  · intro h
    obtain ⟨⟨t, g, rest⟩, hm, rfl⟩ := map_eq_some_iff.mp h
    obtain ⟨x, hx, rfl, -, hs⟩ := mem_endpointTargetRegexp.mp (mem_of_head? hm)
    exact ⟨x, rest, hx, rfl, hs⟩
  · rintro ⟨x, rest, hx, rfl, rfl⟩
    -- the target ends at the first brace, so that there is one match only
    have hm : ⟨openTarget ++ (x ++ closeTarget), [], rest⟩ ∈
        endpointTargetRegexp (openTarget ++ (x ++ (closeTarget ++ rest))) :=
      mem_endpointTargetRegexp.mpr ⟨x, hx, rfl, rfl, rfl⟩
    rw [head?_of_unique hm]
    · rfl
    · rintro ⟨t, g, rest'⟩ hm'
      obtain ⟨x', hx', rfl, rfl, h⟩ := mem_endpointTargetRegexp.mp hm'
      obtain ⟨rfl, hr⟩ := eq_of_append_cons hx hx' (append_cancel_left h)
      have hre : rest = rest' := (cons.inj hr).2
      rw [hre]

theorem close_within {y z v : Str} (hz : '\x7d' ∉ z) (h : y ++ (closeTarget ++ v) = z ++ (closeTarget ++ rest)) :
    ∃ rest', y ++ closeTarget = z ++ (closeTarget ++ rest') := by
  rcases append_eq_append_iff.mp h with ⟨a, rfl, ha⟩ | ⟨a, rfl, ha⟩
  · cases a with
    | nil => exact ⟨[], by simp⟩
    | cons c a =>
      obtain ⟨rfl, -⟩ := cons.inj ha
      simp at hz
  · cases a with
    | nil => exact ⟨[], by simp⟩
    | cons c a =>
      obtain ⟨rfl, hb⟩ := cons.inj ha
      cases a with
      | nil => exact absurd (cons.inj hb).1 (by decide)
      | cons c a =>
        obtain ⟨rfl, -⟩ := cons.inj hb
        exact ⟨a ++ closeTarget, by simp [closeTarget]⟩

theorem suffix_closeTarget {y : Str} (hy : y <:+ u ++ closeTarget) (hne : y ≠ []) :
    (∃ y', y = y' ++ closeTarget) ∨ y = ['/'] := by
  have hs : u ++ closeTarget = (u ++ ['\x7d']) ++ ['/'] := by simp [closeTarget]
  rw [hs] at hy
  obtain ⟨y₁, rfl⟩ := exists_of_suffix_append_singleton hy hne
  by_cases hnil : y₁ = []
  · exact .inr (by simp [hnil])
  · have hy₁ : y₁ <:+ u ++ ['\x7d'] := (suffix_append_inj_of_length_eq rfl).mp hy |>.1
    obtain ⟨y', rfl⟩ := exists_of_suffix_append_singleton hy₁ hnil
    exact .inl ⟨y', by simp [closeTarget]⟩

theorem settled_endpointTarget (u v : Str) : Settled endpointTargetRegexp (u ++ closeTarget) v where
  same := by
    intro y hy hne
    apply ext
    intro n
    rw [firstLength_endpointTarget, firstLength_endpointTarget]
    constructor
    · rintro ⟨x, rest, hx, rfl, h⟩
      have hz : '\x7d' ∉ openTarget ++ x := by simpa [openTarget] using hx
      rcases suffix_closeTarget hy hne with ⟨y', rfl⟩ | rfl
      · rw [append_assoc, ← append_assoc openTarget] at h
        obtain ⟨rest', h'⟩ := close_within hz h
        exact ⟨x, rest', hx, rfl, by rw [h', append_assoc]⟩
      · exact absurd (cons.inj h).1 (by decide)
    · rintro ⟨x, rest, hx, rfl, rfl⟩
      exact ⟨x, rest ++ v, hx, rfl, by simp⟩
  fits := by
    intro y _ n hn
    obtain ⟨x, rest, -, rfl, rfl⟩ := firstLength_endpointTarget.mp hn
    simp

theorem count_endpointTarget_eq_zero : count endpointTargetRegexp s = 0 ↔ search endpointTargetRegexp s = none := by
  have hnil : endpointTargetRegexp [] = [] := rfl
  exact count_eq_zero hnil

theorem count_endpointTarget_ne_zero {x v : Str} (hx : '\x7d' ∉ x) :
    count endpointTargetRegexp (u ++ (openTarget ++ (x ++ (closeTarget ++ v)))) ≠ 0 := by
  rw [ne_eq, count_endpointTarget_eq_zero, ← ne_eq, ne_none_iff_isSome, exists_mem_of_search]
  exact ⟨u, _, _, rfl, mem_endpointTargetRegexp.mpr ⟨x, hx, rfl, rfl, rfl⟩⟩

theorem count_endpointTarget_plain (hs : '\x7b' ∉ s) : count endpointTargetRegexp s = 0 := by
  rw [count_endpointTarget_eq_zero]
  by_contra hso
  rw [← ne_eq, ne_none_iff_isSome, exists_mem_of_search] at hso
  obtain ⟨u, y, ⟨t, g, rest⟩, rfl, hm⟩ := hso
  obtain ⟨x, -, -, -, rfl⟩ := mem_endpointTargetRegexp.mp hm
  simp [openTarget] at hs

section
variable {a b x : Str} (hb : '\x7d' ∉ b) (hx : '\x7d' ∉ x) (hhead : b.head? = some 'r')

include hx in
theorem count_endpointTarget_of_some (ha : (search endpointTargetRegexp a).isSome) :
    2 ≤ count endpointTargetRegexp (a ++ (b ++ (openTarget ++ (x ++ closeTarget)))) := by
  obtain ⟨u, y, ⟨t, g, rest⟩, rfl, hm⟩ := exists_mem_of_search.mp ha
  obtain ⟨x', hx', -, -, rfl⟩ := mem_endpointTargetRegexp.mp hm
  have hs : u ++ (openTarget ++ (x' ++ (closeTarget ++ rest))) ++ (b ++ (openTarget ++ (x ++ closeTarget))) =
      (u ++ (openTarget ++ x') ++ closeTarget) ++ ((rest ++ b) ++ (openTarget ++ (x ++ (closeTarget ++ [])))) := by simp
  have h1 : count endpointTargetRegexp (u ++ (openTarget ++ x') ++ closeTarget) ≠ 0 := by
    have h := count_endpointTarget_ne_zero (u := u) (v := []) hx'
    simpa using h
  have h2 := count_endpointTarget_ne_zero (u := rest ++ b) (v := []) hx
  rw [hs, count_append (settled_endpointTarget _ _)]
  omega

include hb hx hhead in
theorem count_endpointTarget_of_none (ha : search endpointTargetRegexp a = none) :
    count endpointTargetRegexp (a ++ (b ++ (openTarget ++ (x ++ closeTarget)))) = 1 := by
  apply count_eq_one
  · rintro y ⟨u, hu⟩ n hn
    obtain ⟨x', rest, hx', rfl, rfl⟩ := firstLength_endpointTarget.mp hn
    suffices rest = [] by simp [this]
    have hz : '\x7d' ∉ b ++ (openTarget ++ x) := by
      have ho : '\x7d' ∉ openTarget := by decide
      simp [hb, hx, ho]
    have hu' : a ++ ((b ++ (openTarget ++ x)) ++ closeTarget) = (u ++ (openTarget ++ x')) ++ (closeTarget ++ rest) := by
      simp only [append_assoc] at hu ⊢
      exact hu.symm
    rcases append_eq_append_iff.mp hu' with ⟨c, -, hc⟩ | ⟨c, hc, hr⟩
    · -- the end is after the first part, and there is only one there
      have hc' : (b ++ (openTarget ++ x)) ++ (closeTarget ++ []) = c ++ (closeTarget ++ rest) := by
        rw [append_nil]
        exact hc
      obtain ⟨rest', h⟩ := close_within hz hc'.symm
      have hl := congrArg length (h.symm.trans rfl)
      have hl' := congrArg length hc'
      simp only [length_append, length_nil] at hl hl'
      exact length_eq_zero_iff.mp (by omega)
    · -- the end is in the first part, or it runs over into the second, which begins with another letter
      obtain ⟨b', rfl⟩ : ∃ b', b = 'r' :: b' := head?_eq_some_iff.mp hhead
      cases c with
      | nil => exact absurd (cons.inj hr).1 (by decide)
      | cons c₁ c =>
        obtain ⟨rfl, hs⟩ := cons.inj hr
        cases c with
        | nil => exact absurd (cons.inj hs).1 (by decide)
        | cons c₂ c =>
          obtain ⟨rfl, -⟩ := cons.inj hs
          have hso : (search endpointTargetRegexp a).isSome :=
            exists_mem_of_search.mpr ⟨u, openTarget ++ (x' ++ (closeTarget ++ c)), _, by simp [hc, closeTarget],
                mem_endpointTargetRegexp.mpr ⟨x', hx', rfl, rfl, rfl⟩⟩
          rw [ha] at hso
          cases hso
  · have h := count_endpointTarget_ne_zero (u := a ++ b) (v := []) hx
    simpa using h

end

/-! ## The IDs -/

theorem dot_iff : (∀ c ∈ s, dot c = true) ↔ '\n' ∉ s := by
  constructor
  · intro h hmem
    exact absurd (h _ hmem) (by decide)
  · intro h c hc
    have hne : c ≠ '\n' := fun heq => h (heq ▸ hc)
    simpa [dot] using hne

theorem mem_receiverNameRegexp {s t : Str} : ⟨t, g, rest⟩ ∈ receiverNameRegexp s ↔
      ∃ a b, a ≠ [] ∧ '/' ∉ a ∧ '\n' ∉ b ∧ t = a ++ '/' :: b ∧ g = [(1, a), (2, b)] ∧ s = a ++ '/' :: (b ++ rest) := by
  unfold receiverNameRegexp
  simp only [mem_seq, mem_lit, mem_star, mem_plus, mem_group, dot_iff]
  constructor
  · rintro ⟨a, g₁, mid, t₂, g₂, ⟨g₃, ⟨rfl, rfl, ha, hall⟩, rfl⟩,
      ⟨t₄, g₄, mid', b, g₅, ⟨rfl, rfl, rfl⟩, ⟨g₆, ⟨rfl, rfl, hb⟩, rfl⟩, rfl, rfl⟩, rfl, rfl⟩
    refine ⟨a, b, ha, fun hmem => ?_, hb, rfl, rfl, rfl⟩
    simpa using hall _ hmem
  · rintro ⟨a, b, ha, hs, hb, rfl, rfl, rfl⟩
    refine ⟨a, _, _, _, _, ⟨_, ⟨rfl, rfl, ha, ?_⟩, rfl⟩,
      ⟨_, _, _, b, _, ⟨rfl, rfl, rfl⟩, ⟨_, ⟨rfl, rfl, hb⟩, rfl⟩, rfl, rfl⟩, rfl, rfl⟩
    intro c hc
    have hne : c ≠ '/' := fun heq => hs (heq ▸ hc)
    simpa using hne

theorem whole_receiverName {type : Str} (ht : type ≠ []) (hs : '/' ∉ type) (hr : '\n' ∉ rest) :
    whole receiverNameRegexp (type ++ '/' :: rest) = some ⟨type ++ '/' :: rest, [(1, type), (2, rest)], []⟩ := by
  apply whole_of_unique
  · exact mem_receiverNameRegexp.mpr ⟨type, rest, ht, hs, hr, rfl, rfl, by simp⟩
  · rfl
  · rintro ⟨t, g, rest'⟩ hm rfl
    obtain ⟨a, b, -, ha, -, rfl, rfl, h⟩ := mem_receiverNameRegexp.mp hm
    rw [append_nil] at h
    obtain ⟨rfl, rfl⟩ := eq_of_append_cons hs ha h
    rfl

theorem whole_receiverName_none {type : Str} (hs : '/' ∉ type) (hr : '\n' ∈ rest) :
    whole receiverNameRegexp (type ++ '/' :: rest) = none := by
  apply whole_eq_none
  rintro ⟨t, g, rest'⟩ hm rfl
  obtain ⟨a, b, -, ha, hb, -, -, h⟩ := mem_receiverNameRegexp.mp hm
  rw [append_nil] at h
  rw [(eq_of_append_cons hs ha h).2] at hr
  exact hb hr

theorem mem_endpointIDRegexp {s t : Str} : ⟨t, g, rest⟩ ∈ endpointIDRegexp s ↔
      ∃ a b c, '\n' ∉ a ∧ '\n' ∉ b ∧ '\n' ∉ c ∧ t = a ++ (openTarget ++ (b ++ (closeTarget ++ c))) ∧ g = [(1, c)] ∧
        s = a ++ (openTarget ++ (b ++ (closeTarget ++ (c ++ rest)))) := by
  unfold endpointIDRegexp
  simp only [mem_seq, mem_lit, mem_star, mem_group, dot_iff]
  constructor
  · rintro ⟨a, g₁, mid₁, t₁, g₂, ⟨rfl, rfl, ha⟩, ⟨t₂, g₃, mid₂, t₃, g₄, ⟨rfl, rfl, rfl⟩, ⟨b, g₅, mid₃, t₄, g₆,
      ⟨rfl, rfl, hb⟩, ⟨t₅, g₇, mid₄, c, g₈, ⟨rfl, rfl, rfl⟩, ⟨g₉, ⟨rfl, rfl, hc⟩, rfl⟩, rfl, rfl⟩, rfl, rfl⟩,
      rfl, rfl⟩, rfl, rfl⟩
    exact ⟨a, b, c, ha, hb, hc, rfl, rfl, rfl⟩
  · rintro ⟨a, b, c, ha, hb, hc, rfl, rfl, rfl⟩
    exact ⟨a, _, _, _, _, ⟨rfl, rfl, ha⟩, ⟨_, _, _, _, _, ⟨rfl, rfl, rfl⟩, ⟨b, _, _, _, _, ⟨rfl, rfl, hb⟩,
      ⟨_, _, _, c, _, ⟨rfl, rfl, rfl⟩, ⟨_, ⟨rfl, rfl, hc⟩, rfl⟩, rfl, rfl⟩, rfl, rfl⟩, rfl, rfl⟩, rfl, rfl⟩

theorem whole_endpointID {before x id : Str} (hb : '\x7b' ∉ before) (hx : '\x7b' ∉ x) (hx' : '\x7d' ∉ x)
    (hid : '\x7b' ∉ id) (hid' : '\x7d' ∉ id) (hbn : '\n' ∉ before) (hxn : '\n' ∉ x) (hidn : '\n' ∉ id) :
    whole endpointIDRegexp (before ++ (openTarget ++ (x ++ (closeTarget ++ id)))) =
      some ⟨before ++ (openTarget ++ (x ++ (closeTarget ++ id))), [(1, id)], []⟩ := by
  apply whole_of_unique
  · exact mem_endpointIDRegexp.mpr ⟨before, x, id, hbn, hxn, hidn, rfl, rfl, by simp⟩
  · rfl
  · rintro ⟨t, g, rest'⟩ hm rfl
    obtain ⟨a, b, c, -, -, -, rfl, rfl, h⟩ := mem_endpointIDRegexp.mp hm
    rw [append_nil] at h
    -- each brace is there once
    have hop : '\x7b' ∉ openTarget.tail ++ (x ++ (closeTarget ++ id)) := by
      have ho : '\x7b' ∉ openTarget.tail ++ closeTarget := by decide
      simp only [mem_append, not_or] at ho ⊢
      exact ⟨ho.1, hx, ho.2, hid⟩
    have hcl : '\x7d' ∉ '/' :: id := by simpa using hid'
    obtain ⟨rfl, -, hta⟩ := (append_cons_inj_of_notMem hb hop).mp h
    obtain ⟨rfl, -, hend⟩ := (append_cons_inj_of_notMem hx' hcl).mp (append_cancel_left hta)
    have hid : id = c := (cons.inj hend).2
    rw [hid]

/-! ## The IDs of a dynamic name -/

theorem whole_endpointPart (hc : Plain creatorName) (ht : Plain target) (he : Plain endpointID) :
    whole endpointIDRegexp (receiverCreator ++ ['/'] ++ endpointPart creatorName target endpointID) =
      some ⟨receiverCreator ++ ['/'] ++ endpointPart creatorName target endpointID, [(1, endpointID)], []⟩ := by
  have hr : '\x7b' ∉ receiverCreator ++ ['/'] ∧ '\n' ∉ receiverCreator ++ ['/'] := by decide
  have hb : '\x7b' ∉ receiverCreator ++ ['/'] ++ creatorName := by
    rw [mem_append, not_or]
    exact ⟨hr.1, hc.openBrace⟩
  have hbn : '\n' ∉ receiverCreator ++ ['/'] ++ creatorName := by
    rw [mem_append, not_or]
    exact ⟨hr.2, hc.newline⟩
  have hx : '\x7b' ∉ quoted target := by simpa [quoted] using ht.openBrace
  have hx' : '\x7d' ∉ quoted target := by simpa [quoted] using ht.closeBrace
  have hxn : '\n' ∉ quoted target := by simpa [quoted] using ht.newline
  rw [endpointPart, ← append_assoc]
  exact whole_endpointID hb hx hx' he.openBrace he.closeBrace hbn hxn he.newline

structure Recognisable (id : ComponentID) (endpointID : Str) (attr : Option Str) : Prop where
  endpointAttr : attr = none ∨ id = noType ∧ endpointID = []
  creator : search receiverCreatorRegexp (id.string ++ ['/']) = none
  target : search endpointTargetRegexp (id.string ++ ['/']) = none
  newline : '\n' ∉ id.name

section
variable {id : ComponentID} {creatorName target endpointID : Str} (hc : Plain creatorName) (ht : Plain target)
  (he : Plain endpointID)
include hc ht he

theorem count_receiverCreator_dynamicName :
    count receiverCreatorRegexp (dynamicName id creatorName target endpointID) =
      count receiverCreatorRegexp (id.string ++ ['/']) + 1 := by
  rw [dynamicName, count_receiverCreator_append, count_receiverCreator_append, count_receiverCreator_self,
    count_receiverCreator_eq_zero.mpr (hc.separator_endpointPart ht he)]

theorem count_endpointTarget_dynamicName :
    count endpointTargetRegexp (dynamicName id creatorName target endpointID) = 1 ↔
      search endpointTargetRegexp (id.string ++ ['/']) = none := by
  have hsp : dynamicName id creatorName target endpointID =
      (id.string ++ ['/'] ++ (receiverCreator ++ ['/'] ++ creatorName ++ (openTarget ++ quoted target)) ++
        closeTarget) ++ endpointID := by
    simp [dynamicName, endpointPart]
  have hco : count endpointTargetRegexp (dynamicName id creatorName target endpointID) =
      count endpointTargetRegexp (id.string ++ ['/'] ++
        (receiverCreator ++ ['/'] ++ creatorName ++ (openTarget ++ (quoted target ++ closeTarget)))) := by
    rw [hsp, count_append (settled_endpointTarget _ _), count_endpointTarget_plain he.openBrace]
    simp
  have hx : '\x7d' ∉ quoted target := by simpa [quoted] using ht.closeBrace
  rw [hco]
  cases hs : search endpointTargetRegexp (id.string ++ ['/']) with
  | none =>
    have hb : '\x7d' ∉ receiverCreator ++ ['/'] ++ creatorName := by
      have hr : '\x7d' ∉ receiverCreator ++ ['/'] := by decide
      rw [mem_append, not_or]
      exact ⟨hr, hc.closeBrace⟩
    simpa using count_endpointTarget_of_none hb hx rfl hs
  | some m =>
    have h2 := count_endpointTarget_of_some (b := receiverCreator ++ ['/'] ++ creatorName) hx (by rw [hs]; rfl)
    simp only [reduceCtorEq, iff_false]
    omega

end

theorem receiverNameToIDs_of_counts {name : Str} {attr : Option Str}
    (h : count receiverCreatorRegexp (receiverNameFor name attr) ≠ 1 ∨
      count endpointTargetRegexp (receiverNameFor name attr) ≠ 1) :
    receiverNameToIDs (some name) attr = .ok (noType, []) := by
  unfold receiverNameToIDs
  exact if_pos h

variable (id : ComponentID)

theorem receiverNameToIDs_of_attr (creatorName target endpointID attr : Str) :
    receiverNameToIDs (some (dynamicName id creatorName target endpointID)) (some attr) = .ok (noType, []) := by
  apply receiverNameToIDs_of_counts
  left
  have hn : receiverNameFor (dynamicName id creatorName target endpointID) (some attr) =
      dynamicName id creatorName target endpointID ++ ['/'] ++ (receiverCreator ++ ['/'] ++
        ("<PLACEHOLDER>/\x7bendpoint=\"PLACEHOLDER\"\x7d/" ++ attr)) := by
    simp [receiverNameFor, receiverCreator]
  have hone : count receiverCreatorRegexp (dynamicName id creatorName target endpointID ++ ['/']) ≠ 0 := by
    rw [ne_eq, count_receiverCreator_eq_zero, not_not]
    exact ⟨id.string ++ ['/'], endpointPart creatorName target endpointID ++ ['/'], by simp [dynamicName]⟩
  rw [hn, count_receiverCreator_append, count_receiverCreator_append, count_receiverCreator_self]
  omega

theorem recognisable_noType : Recognisable noType [] none where
  endpointAttr := .inl rfl
  creator := by decide +kernel
  target := by decide +kernel
  newline := by decide

def nameAndSlash (id : ComponentID) : Str := if id.name = [] then [] else id.name ++ ['/']

theorem string_append_slash : id.string ++ ['/'] = id.type ++ '/' :: nameAndSlash id := by
  unfold ComponentID.string nameAndSlash
  split <;> simp

theorem trimSlash_nameAndSlash : trimSlash (nameAndSlash id) = id.name := by
  unfold nameAndSlash trimSlash
  split
  case isTrue h => simp [h]
  case isFalse => simp

theorem newline_nameAndSlash : '\n' ∈ nameAndSlash id ↔ '\n' ∈ id.name := by
  unfold nameAndSlash
  split
  case isTrue h => simp [h]
  case isFalse => simp

section
variable {id : ComponentID} (hid : validType id.type = true) {creatorName target endpointID : Str}
  (hc : Plain creatorName) (ht : Plain target) (he : Plain endpointID)
include hid hc ht he

theorem receiverNameToIDs_of_searches (hcr : search receiverCreatorRegexp (id.string ++ ['/']) = none)
    (hta : search endpointTargetRegexp (id.string ++ ['/']) = none) :
    receiverNameToIDs (some (dynamicName id creatorName target endpointID)) none =
      .ok (if '\n' ∈ id.name then (noType, []) else (id, endpointID)) := by
  have hz : count receiverCreatorRegexp (id.string ++ ['/']) = 0 := (count_eq_zero rfl).mpr hcr
  have hco : ¬(count receiverCreatorRegexp (dynamicName id creatorName target endpointID) ≠ 1 ∨
      count endpointTargetRegexp (dynamicName id creatorName target endpointID) ≠ 1) := by
    rw [count_receiverCreator_dynamicName hc ht he, hz, (count_endpointTarget_dynamicName hc ht he).mpr hta]
    simp
  have hsp : splitBefore (receiverCreator ++ ['/']) (dynamicName id creatorName target endpointID) =
      some (id.string ++ ['/'], receiverCreator ++ ['/'] ++ endpointPart creatorName target endpointID) :=
    splitBefore_append slash_notMem_receiverCreator (count_receiverCreator_eq_zero.mp hz)
  have hs : '/' ∉ id.type := ComponentID.slash_notMem_of_validType hid
  have hne : id.type ≠ [] := by
    intro hnil
    rw [hnil] at hid
    cases hid
  unfold receiverNameToIDs receiverNameFor
  simp only [hco, if_false, hsp, string_append_slash]
  by_cases hn : '\n' ∈ id.name
  · rw [whole_receiverName_none hs ((newline_nameAndSlash id).mpr hn), if_pos hn]
  · rw [whole_receiverName hne hs (fun h => hn ((newline_nameAndSlash id).mp h)), if_neg hn]
    have hty : Match.group ⟨id.type ++ '/' :: nameAndSlash id, [(1, id.type), (2, nameAndSlash id)], []⟩ 1 =
        id.type := rfl
    have hna : Match.group ⟨id.type ++ '/' :: nameAndSlash id, [(1, id.type), (2, nameAndSlash id)], []⟩ 2 =
        nameAndSlash id := rfl
    simp only [hty, hna, hid, if_true, whole_endpointPart hc ht he, mustNewIDWithName, trimSlash_nameAndSlash]
    rfl

/-- The IDs come back from a dynamic name exactly when the ID of the receiver, with a slash, holds no separator and no
newline, and the name is the only attribute. -/
theorem recognised_iff (attr : Option Str) :
    receiverNameToIDs (some (dynamicName id creatorName target endpointID)) attr = .ok (id, endpointID) ↔
      Recognisable id endpointID attr := by
  constructor
  · intro h
    -- where the name is given up, the IDs are the ones for that
    have hg : receiverNameToIDs (some (dynamicName id creatorName target endpointID)) attr = .ok (noType, []) →
        id = noType ∧ endpointID = [] := by
      intro hnon
      rw [h] at hnon
      exact ⟨congrArg Prod.fst (Except.ok.inj hnon), congrArg Prod.snd (Except.ok.inj hnon)⟩
    cases attr with
    | some attr =>
      obtain ⟨rfl, rfl⟩ := hg (receiverNameToIDs_of_attr _ _ _ _ _)
      exact { recognisable_noType with endpointAttr := .inr ⟨rfl, rfl⟩ }
    | none =>
      by_cases hno : id = noType
      · rw [hno]
        exact { recognisable_noType with endpointAttr := .inl rfl }
      · have hco : ¬(count receiverCreatorRegexp (dynamicName id creatorName target endpointID) ≠ 1 ∨
            count endpointTargetRegexp (dynamicName id creatorName target endpointID) ≠ 1) :=
          fun hco => hno (hg (receiverNameToIDs_of_counts hco)).1
        rw [not_or, not_not, not_not, count_receiverCreator_dynamicName hc ht he,
          count_endpointTarget_dynamicName hc ht he] at hco
        have hcr : search receiverCreatorRegexp (id.string ++ ['/']) = none :=
          (count_eq_zero rfl).mp (by omega)
        refine ⟨.inl rfl, hcr, hco.2, fun hn => hno (hg ?_).1⟩
        rw [receiverNameToIDs_of_searches hid hc ht he hcr hco.2, if_pos hn]
  · rintro ⟨rfl | ⟨rfl, rfl⟩, hcr, hta, hn⟩
    · rw [receiverNameToIDs_of_searches hid hc ht he hcr hta, if_neg hn]
    · cases attr with
      | some attr => exact receiverNameToIDs_of_attr _ _ _ _ _
      | none => rw [receiverNameToIDs_of_searches hid hc ht he hcr hta, if_neg hn]

end

theorem recognised_redis : receiverNameToIDs (some (dynamicName ⟨"redis", "cache/1"⟩ [] "10.0.0.1" "pod")) none =
      .ok (⟨"redis", "cache/1"⟩, "pod") := by
  have hcr : Plain [] := ⟨by decide, by decide, by decide, by decide⟩
  have hta : Plain "10.0.0.1" := ⟨by decide, by decide, by decide, by decide⟩
  have hpod : Plain "pod" := ⟨by decide, by decide, by decide, by decide⟩
  refine (recognised_iff (by decide +kernel) hcr hta hpod none).mpr ?_
  exact ⟨.inl rfl, by decide +kernel, by decide +kernel, by decide⟩

def creatorNamed : Config :=
  ⟨[(⟨"redis", receiverCreator⟩,
      ⟨some ⟨[], [("failed", [⟨none, "refused", [], [], false⟩])]⟩, []⟩)], [⟨['o'], []⟩], false⟩

/-- The configuration is valid, and the slash after the ID makes the name a separator. -/
theorem not_recognised_creatorNamed :
    creatorNamed.validate = [] ∧ (⟨"redis", receiverCreator⟩ : ComponentID) ∈ keys creatorNamed.receivers ∧
      Plain [] ∧ Plain ['t'] ∧ Plain ['e'] ∧
      receiverNameToIDs (some (dynamicName ⟨"redis", receiverCreator⟩ [] ['t'] ['e'])) none ≠
        .ok (⟨"redis", receiverCreator⟩, ['e']) := by
  refine ⟨by decide +kernel, by decide, ?_, ?_, ?_, ?_⟩
  · exact ⟨by decide, by decide, by decide, by decide⟩
  · exact ⟨by decide, by decide, by decide, by decide⟩
  · exact ⟨by decide, by decide, by decide, by decide⟩
  · rw [receiverNameToIDs_of_counts (.inl (by decide +kernel))]
    intro h
    exact absurd (congrArg Prod.snd (Except.ok.inj h)) (by decide)

end Collector.DiscoveryReceiver
