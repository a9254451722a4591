import Collector.Component
import Collector.Confmap.Rewrite
import Collector.Lib.Regex

/-!
# Deprecated keys

`remove_ballast_key.go`, `move_otlp_insecure.go` and `move_hec_tls.go` of `internal/configconverter`. Each
of them finds the flat keys of one deprecated setting by an expression that is not anchored.
-/

namespace Collector.ConfigConverter

open Lib Lib.Regex Confmap List

def exporters : Str := "exporters"

def processors : Str := "processors"

def tls : Str := "tls"

/-- The expression `start(/\w+)?::tail`. -/
def instanceRe (start : Str) (tail : Pattern Char) : Pattern Char :=
  seq (lit start) (seq (opt (group 1 (seq (lit ['/']) (plus word)))) (seq (lit [':', ':']) tail))

def moveRule (re : Pattern Char) (tlsKey : Match Char → Str) : KeyRule := fun k v =>
  match search re k with
  | none => some (k, v)
  | some m => some (tlsKey m, v)

namespace RemoveBallastKey

def memoryLimiter : Str := "memory_limiter"

def ballastSizeMib : Str := "ballast_size_mib"

/-- The expression `processors::memory_limiter(/\w+)?::ballast_size_mib`. -/
def ballastKeyRegexp : Pattern Char := instanceRe (processors ++ ':' :: ':' :: memoryLimiter) (lit ballastSizeMib)

def rule : KeyRule := fun k v => if (search ballastKeyRegexp k).isSome then none else some (k, v)

end RemoveBallastKey

namespace MoveOTLPInsecureKey

def otlp : Str := "otlp"

def insecure : Str := "insecure"

/-- The expression `exporters::otlp(/\w+)?::insecure`. -/
def insecureRE : Pattern Char := instanceRe (exporters ++ ':' :: ':' :: otlp) (lit insecure)

def rule : KeyRule := moveRule insecureRE fun m =>
  exporters ++ ':' :: ':' :: otlp ++ m.group 1 ++ "::tls::insecure"

end MoveOTLPInsecureKey

namespace MoveHecTLS

def splunkHec : Str := "splunk_hec"

def insecureSkipVerify : Str := "insecure_skip_verify"

def caFile : Str := "ca_file"

def certFile : Str := "cert_file"

def keyFile : Str := "key_file"

/-- The expression `exporters::splunk_hec(/\w+)?::(insecure_skip_verify|ca_file|cert_file|key_file)`. -/
def re : Pattern Char :=
  instanceRe (exporters ++ ':' :: ':' :: splunkHec)
    (group 2 (alt (lit insecureSkipVerify) (alt (lit caFile) (alt (lit certFile) (lit keyFile)))))

def rule : KeyRule := moveRule re fun m =>
  exporters ++ ':' :: ':' :: splunkHec ++ m.group 1 ++ "::tls::" ++ m.group 2

end MoveHecTLS

/-! ## The settings -/

structure Setting where
  sec : Str
  typ : Str
  ks : List Str
  moved : Bool
  sec_ne : sec ≠ []
  sec_colon : ':' ∉ sec
  typ_valid : validType typ = true
  typ_colon : ':' ∉ typ
  typ_tls : ¬ typ <+: tls
  ks_colon : ∀ d ∈ ks, ':' ∉ d
  ks_front : ∀ d ∈ ks, ∀ d' ∈ ks, d <+: d' → d = d'
  /-- Its keys come before `tls` in the order of `AllKeys`. -/
  ks_tls : ∀ d ∈ ks, d.head?.any (· < 't') = true

def ballast : Setting where
  sec := processors
  typ := RemoveBallastKey.memoryLimiter
  ks := [RemoveBallastKey.ballastSizeMib]
  moved := false
  sec_ne := by decide
  sec_colon := by decide
  typ_valid := by decide
  typ_colon := by decide
  typ_tls := by decide
  ks_colon := by decide
  ks_front := by decide
  ks_tls := by decide

def otlpInsecure : Setting where
  sec := exporters
  typ := MoveOTLPInsecureKey.otlp
  ks := [MoveOTLPInsecureKey.insecure]
  moved := true
  sec_ne := by decide
  sec_colon := by decide
  typ_valid := by decide
  typ_colon := by decide
  typ_tls := by decide
  ks_colon := by decide
  ks_front := by decide
  ks_tls := by decide

def hecTLS : Setting where
  sec := exporters
  typ := MoveHecTLS.splunkHec
  ks := [MoveHecTLS.insecureSkipVerify, MoveHecTLS.caFile, MoveHecTLS.certFile, MoveHecTLS.keyFile]
  moved := true
  sec_ne := by decide
  sec_colon := by decide
  typ_valid := by decide
  typ_colon := by decide
  typ_tls := by decide
  ks_colon := by decide
  ks_front := by decide
  ks_tls := by decide

def SlashWord (name : Str) : Prop := name = [] ∨ ∃ w, w ≠ [] ∧ (∀ c ∈ w, word c = true) ∧ name = '/' :: w

namespace Setting

variable (f : Setting)

def start : Str := f.sec ++ ':' :: ':' :: f.typ

def Matches (k : Str) : Prop :=
  ∃ pre name d post, SlashWord name ∧ d ∈ f.ks ∧ k = pre ++ (f.start ++ (name ++ ':' :: ':' :: (d ++ post)))

def tlsKey (name d : Str) : Str := f.start ++ (name ++ ':' :: ':' :: (tls ++ ':' :: ':' :: d))

def write (name d : Str) (v : Value) : Option (Str × Value) := if f.moved then some (f.tlsKey name d, v) else none

structure Pass (rule : KeyRule) : Prop where
  other : ∀ k v, ¬ f.Matches k → rule k v = some (k, v)
  front : ∀ name d post v, SlashWord name → d ∈ f.ks →
    rule (f.start ++ (name ++ ':' :: ':' :: (d ++ post))) v = f.write name d v
  matched : ∀ k v, f.Matches k → ∃ name d, SlashWord name ∧ d ∈ f.ks ∧ rule k v = f.write name d v

end Setting

/-! ## The expressions -/

theorem SlashWord.colon {name : Str} (h : SlashWord name) : ':' ∉ name := by
  rcases h with rfl | ⟨w, -, hw, rfl⟩
  · simp
  · intro hmem
    rcases mem_cons.mp hmem with h | h
    · exact absurd h (by decide)
    · exact absurd (hw _ h) (by decide)

theorem eq_of_append_colon {a b x y : Str} (ha : ':' ∉ a) (hb : ':' ∉ b) (h : a ++ ':' :: x = b ++ ':' :: y) :
    a = b ∧ x = y := by
  have ht (a x : Str) (ha : ':' ∉ a) : (a ++ ':' :: x).takeWhile (· ≠ ':') = a := by
    have hall : ∀ c ∈ a, decide (c ≠ ':') = true := by
      intro c hc
      exact decide_eq_true fun hc' => ha (hc' ▸ hc)
    rw [takeWhile_append_of_pos hall]
    simp
  have hab : a = b := by rw [← ht a x ha, h, ht b y hb]
  subst hab
  exact ⟨rfl, (List.cons.inj (append_cancel_left h)).2⟩

def nameGroup (name : Str) : List (Nat × Str) := if name = [] then [] else [(1, name)]

theorem mem_instanceRe {start s t rest : Str} {tail : Pattern Char} {g : List (Nat × Str)} :
    ⟨t, g, rest⟩ ∈ instanceRe start tail s ↔ ∃ name mid t' g', SlashWord name ∧ ⟨t', g', rest⟩ ∈ tail mid ∧
      s = start ++ (name ++ ':' :: ':' :: mid) ∧ g = nameGroup name ++ g' ∧
      t = start ++ (name ++ ':' :: ':' :: t') := by
  constructor
  · intro h
    obtain ⟨_, _, s₁, _, _, hs, h₁, rfl, rfl⟩ := mem_seq.mp h
    obtain ⟨rfl, rfl, rfl⟩ := mem_lit.mp hs
    obtain ⟨name, g₁, s₂, _, _, hn, h₂, rfl, rfl⟩ := mem_seq.mp h₁
    obtain ⟨_, _, mid, t', g', hc, ht, rfl, rfl⟩ := mem_seq.mp h₂
    obtain ⟨rfl, rfl, rfl⟩ := mem_lit.mp hc
    rcases mem_opt.mp hn with hg | hno
    · obtain ⟨_, hseq, rfl⟩ := mem_group.mp hg
      obtain ⟨_, _, _, w, _, hsl, hp, rfl, rfl⟩ := mem_seq.mp hseq
      obtain ⟨rfl, rfl, rfl⟩ := mem_lit.mp hsl
      obtain ⟨rfl, rfl, hne, hall⟩ := mem_plus.mp hp
      exact ⟨'/' :: w, mid, t', g', .inr ⟨w, hne, hall, rfl⟩, ht, rfl, rfl, rfl⟩
    · cases hno
      exact ⟨[], mid, t', g', .inl rfl, ht, rfl, rfl, rfl⟩
  · rintro ⟨name, mid, t', g', hn, ht, rfl, rfl, rfl⟩
    have hmid := mem_seq_lit [':', ':'] ht
    have hg : ⟨name, nameGroup name, ':' :: ':' :: mid⟩ ∈
        opt (group 1 (seq (lit ['/']) (plus word))) (name ++ ':' :: ':' :: mid) := by
      refine mem_opt.mpr ?_
      rcases hn with rfl | ⟨w, hne, hall, rfl⟩
      · exact .inr rfl
      · have hw : ⟨w, [], ':' :: ':' :: mid⟩ ∈ plus word (w ++ ':' :: ':' :: mid) :=
          mem_plus.mpr ⟨rfl, rfl, hne, hall⟩
        exact .inl (mem_group.mpr ⟨_, mem_seq_lit ['/'] hw, rfl⟩)
    exact mem_seq_lit start (mem_seq.mpr ⟨_, _, _, _, _, hg, hmid, rfl, rfl⟩)

namespace Setting

variable {f : Setting} {tail : Pattern Char} {gs : Str → List (Nat × Str)}

def IsTail (f : Setting) (tail : Pattern Char) (gs : Str → List (Nat × Str)) : Prop :=
  ∀ s t g rest, ⟨t, g, rest⟩ ∈ tail s ↔ t ∈ f.ks ∧ s = t ++ rest ∧ g = gs t

theorem isTail_lit {d : Str} (h : f.ks = [d]) : f.IsTail (lit d) fun _ => [] := by
  intro s t g rest
  rw [mem_lit, h, mem_singleton]
  constructor
  · rintro ⟨rfl, rfl, hs⟩
    exact ⟨rfl, hs, rfl⟩
  · rintro ⟨rfl, hs, rfl⟩
    exact ⟨rfl, rfl, hs⟩

theorem search_isSome_iff (ht : f.IsTail tail gs) (k : Str) :
    (search (instanceRe f.start tail) k).isSome ↔ f.Matches k := by
  rw [exists_mem_of_search]
  constructor
  · rintro ⟨pre, suf, ⟨t, g, rest⟩, rfl, hm⟩
    obtain ⟨name, mid, d, g', hn, hmid, rfl, -, -⟩ := mem_instanceRe.mp hm
    obtain ⟨hd, rfl, -⟩ := (ht _ _ _ _).mp hmid
    exact ⟨pre, name, d, rest, hn, hd, rfl⟩
  · rintro ⟨pre, name, d, post, hn, hd, rfl⟩
    exact ⟨pre, _, _, rfl, mem_instanceRe.mpr ⟨name, d ++ post, d, gs d, hn,
      (ht _ _ _ _).mpr ⟨hd, rfl, rfl⟩, rfl, rfl, rfl⟩⟩

theorem search_groups (ht : f.IsTail tail gs) {k : Str} {m : Match Char}
    (h : search (instanceRe f.start tail) k = some m) :
    ∃ name d, SlashWord name ∧ d ∈ f.ks ∧ m.groups = nameGroup name ++ gs d := by
  obtain ⟨suf, -, hh⟩ := search_eq_some h
  obtain ⟨name, mid, d, g', hn, hmid, -, hg, -⟩ := mem_instanceRe.mp (mem_of_head? hh)
  obtain ⟨hd, -, rfl⟩ := (ht _ _ _ _).mp hmid
  exact ⟨name, d, hn, hd, hg⟩

theorem search_front (ht : f.IsTail tail gs) {name d : Str} (hn : SlashWord name) (hd : d ∈ f.ks) (post : Str) :
    ∃ m, search (instanceRe f.start tail) (f.start ++ (name ++ ':' :: ':' :: (d ++ post))) = some m ∧
      m.groups = nameGroup name ++ gs d := by
  have hmem : ⟨_, nameGroup name ++ gs d, post⟩ ∈ instanceRe f.start tail _ :=
    mem_instanceRe.mpr ⟨name, d ++ post, d, gs d, hn, (ht _ _ _ _).mpr ⟨hd, rfl, rfl⟩, rfl, rfl, rfl⟩
  obtain ⟨m, ms, hm⟩ := exists_cons_of_ne_nil (ne_nil_of_mem hmem)
  refine ⟨m, search_of_head? (by rw [hm]; rfl), ?_⟩
  have hmem' : m ∈ instanceRe f.start tail (f.start ++ (name ++ ':' :: ':' :: (d ++ post))) := by
    rw [hm]
    exact mem_cons_self
  obtain ⟨name', mid, d', g', hn', hmid, hk, hg, -⟩ := mem_instanceRe.mp hmem'
  obtain ⟨hd', rfl, rfl⟩ := (ht _ _ _ _).mp hmid
  obtain ⟨rfl, hr⟩ := eq_of_append_colon hn.colon hn'.colon (append_cancel_left hk)
  replace hr := (List.cons.inj hr).2
  have hdd : d = d' := by
    rcases prefix_or_prefix_of_prefix (prefix_append d post) (hr ▸ prefix_append d' m.rest) with h | h
    · exact f.ks_front d hd d' hd' h
    · exact (f.ks_front d' hd' d hd h).symm
  rw [hg, hdd]

theorem pass_moveRule (hmo : f.moved = true) (ht : f.IsTail tail gs) {tlsKey : Match Char → Str}
    (htls : ∀ m name d, SlashWord name → d ∈ f.ks → m.groups = nameGroup name ++ gs d → tlsKey m = f.tlsKey name d) :
    f.Pass (moveRule (instanceRe f.start tail) tlsKey) := by
  have hw (k : Str) (v : Value) (m : Match Char) (name d : Str) (hn : SlashWord name) (hd : d ∈ f.ks)
      (hm : search (instanceRe f.start tail) k = some m) (hg : m.groups = nameGroup name ++ gs d) :
      moveRule (instanceRe f.start tail) tlsKey k v = f.write name d v := by
    rw [moveRule, hm, write, if_pos hmo, ← htls m name d hn hd hg]
  constructor
  · intro k v h
    rw [← search_isSome_iff ht, Option.not_isSome_iff_eq_none] at h
    rw [moveRule, h]
  · intro name d post v hn hd
    obtain ⟨m, hm, hg⟩ := search_front ht hn hd post
    exact hw _ v m name d hn hd hm hg
  · intro k v h
    obtain ⟨m, hm⟩ := Option.isSome_iff_exists.mp ((search_isSome_iff ht k).mpr h)
    obtain ⟨name, d, hn, hd, hg⟩ := search_groups ht hm
    exact ⟨name, d, hn, hd, hw k v m name d hn hd hm hg⟩

theorem group_one {gs : List (Nat × Str)} (h : find 1 gs = none) (name : Str) :
    (find 1 (nameGroup name ++ gs)).getD [] = name := by
  by_cases hn : name = []
  · simp [nameGroup, hn, h]
  · simp [nameGroup, hn, find]

end Setting

open Setting

theorem pass_moveOTLPInsecureKey : otlpInsecure.Pass MoveOTLPInsecureKey.rule := by
  refine pass_moveRule rfl (isTail_lit rfl) fun m name d _ hd hg => ?_
  obtain rfl := mem_singleton.mp hd
  rw [Match.group, hg, group_one rfl]
  simp only [tlsKey, start, append_assoc]
  rfl

theorem pass_moveHecTLS : hecTLS.Pass MoveHecTLS.rule := by
  have ht : hecTLS.IsTail (group 2 (alt (lit MoveHecTLS.insecureSkipVerify) (alt (lit MoveHecTLS.caFile)
      (alt (lit MoveHecTLS.certFile) (lit MoveHecTLS.keyFile))))) fun d => [(2, d)] := by
    intro s t g rest
    have hks : t ∈ hecTLS.ks ↔ t = MoveHecTLS.insecureSkipVerify ∨ t = MoveHecTLS.caFile ∨
        t = MoveHecTLS.certFile ∨ t = MoveHecTLS.keyFile := by simp [hecTLS]
    simp only [mem_group, alt, mem_append, mem_lit, hks]
    constructor
    · rintro ⟨g', ⟨rfl, rfl, rfl⟩ | ⟨rfl, rfl, rfl⟩ | ⟨rfl, rfl, rfl⟩ | ⟨rfl, rfl, rfl⟩, rfl⟩ <;> simp
    · rintro ⟨rfl | rfl | rfl | rfl, rfl, rfl⟩ <;> exact ⟨[], by simp, rfl⟩
  refine pass_moveRule rfl ht fun m name d _ hd hg => ?_
  have hgr : m.group 2 = d := by
    rw [Match.group, hg]
    by_cases hn : name = [] <;> simp [nameGroup, hn, find]
  rw [hgr, Match.group, hg, group_one rfl]
  simp only [tlsKey, start, append_assoc]
  rfl

theorem pass_removeBallastKey : ballast.Pass RemoveBallastKey.rule := by
  have hiff := @search_isSome_iff ballast (lit RemoveBallastKey.ballastSizeMib) _ (isTail_lit rfl)
  have hdr (k : Str) (v : Value) (h : ballast.Matches k) : RemoveBallastKey.rule k v = none :=
    if_pos ((hiff k).mpr h)
  constructor
  · intro k v h
    exact if_neg fun hs => h ((hiff k).mp hs)
  · intro name d post v hn hd
    exact hdr _ v ⟨[], name, d, post, hn, hd, rfl⟩
  · intro k v h
    obtain ⟨-, name, d, -, hn, hd, -⟩ := id h
    exact ⟨name, d, hn, hd, hdr k v h⟩

end Collector.ConfigConverter
