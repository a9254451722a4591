import Collector.Lib.Hex
import Collector.Strings

/-!
# The positions of Fluentd

`cmd/migratecheckpoint` writes the offsets of Fluentd's position files with a fingerprint of each file.
-/

namespace Collector.MigrateCheckpoint

open Lib Strings List

variable {s : Str}

/-! ## Files -/

structure File where
  content : List UInt8
  fault : Option Str

inductive ReadErr where
  | eof
  | other (text : Str)

/-- The bytes that stand in the buffer. A file that is too short ends in `io.EOF`. -/
def File.readAt (file : File) (len : Nat) : List UInt8 × Option ReadErr :=
  match file.fault with
  | some text => ([], some (.other text))
  | none => if file.content.length < len then (file.content, some .eof) else (file.content.take len, none)

/-- What `os.Open` gives. No file has the empty name. -/
structure FileSystem where
  openFile : Str → Except Str File
  openFile_nil : ∃ e, openFile [] = .error e

variable (fs : FileSystem)

inductive Err where
  | opening (text : Str)
  | reading (text : Str)
  | malformed (text : Str)
  | range (text : Str)

structure Fingerprint where
  firstBytes : List UInt8
  deriving DecidableEq

/-- The file attributes of every reader are an empty map here. -/
structure Reader where
  fingerprint : Fingerprint
  offset : Int
  deriving DecidableEq

def getFingerPrint (fs : FileSystem) (path : Str) : Except Err Fingerprint :=
  match fs.openFile path with
  | .error e => .error (.opening e)
  | .ok file =>
    match file.readAt 1000 with
    | (_, some (.other text)) => .error (.reading ("reading fingerprint bytes: " ++ text))
    | (buf, _) => .ok ⟨buf⟩

/-! ## `strconv.ParseInt(text, 16, 64)` -/

/-- The loop of `ParseUint`. A number below `2 ^ 60` has room for one more digit. -/
def parseUint (text : Str) : Nat → Str → Except Err Nat
  | n, [] => .ok n
  | n, c :: s =>
    if isHex c then
      if n < 2 ^ 60 then parseUint text (16 * n + digitValue c) s else .error (.range text)
    else .error (.malformed text)

def parseSigned (text : Str) (negative : Bool) (digits : Str) : Except Err Int :=
  if digits = [] then .error (.malformed text)
  else
    match parseUint text 0 digits with
    | .error e => .error e
    | .ok un =>
      if negative then if 2 ^ 63 < un then .error (.range text) else .ok (-un)
      else if 2 ^ 63 ≤ un then .error (.range text) else .ok un

def parseInt (text : Str) : Except Err Int :=
  match text with
  | '+' :: digits => parseSigned text false digits
  | '-' :: digits => parseSigned text true digits
  | digits => parseSigned text false digits

/-! ## The conversion -/

def convertToOtel (fs : FileSystem) (path hexPos : Str) : Except Err Reader :=
  match getFingerPrint fs path with
  | .error e => .error e
  | .ok fp =>
    match parseInt hexPos with
    | .error e => .error e
    | .ok offset => .ok ⟨fp, offset⟩

def base64Char (n : Nat) : Char :=
  if n < 26 then Char.ofNat (65 + n)
  else if n < 52 then Char.ofNat (71 + n)
  else if n < 62 then Char.ofNat (n - 4)
  else if n = 62 then '+' else '/'

def base64 : List UInt8 → Str
  | [] => []
  | [a] => [base64Char (a.toNat / 4), base64Char (a.toNat % 4 * 16), '=', '=']
  | [a, b] =>
    [base64Char (a.toNat / 4), base64Char (a.toNat % 4 * 16 + b.toNat / 16), base64Char (b.toNat % 16 * 4), '=']
  | a :: b :: c :: bytes =>
    base64Char (a.toNat / 4) :: base64Char (a.toNat % 4 * 16 + b.toNat / 16) ::
      base64Char (b.toNat % 16 * 4 + c.toNat / 64) :: base64Char (c.toNat % 64) :: base64 bytes

def formatInt : Int → Str
  | .ofNat n => Nat.toDigits 10 n
  | .negSucc n => '-' :: Nat.toDigits 10 (n + 1)

def Reader.json (r : Reader) : Str :=
  "\x7b\"Fingerprint\":\x7b\"FirstBytes\":\"" ++ base64 r.fingerprint.firstBytes ++
    "\"\x7d,\"FileAttributes\":\x7b\x7d,\"Offset\":" ++ formatInt r.offset ++ "\x7d"

/-- `Encode` ends each value with a newline. No value fails to encode. -/
def encode (buf json : Str) : Str := buf ++ json ++ ['\n']

def syncLastPollFiles (readers : List Reader) : Str :=
  readers.foldl (fun buf fileReader => encode buf fileReader.json) (encode [] (Nat.toDigits 10 readers.length))

structure Panic where
  index : Nat
  length : Nat
  deriving DecidableEq

def convertLine (fs : FileSystem) (readers : List Reader) (line : Str) : Except Panic (List Reader) :=
  match fields line with
  | [] => .error ⟨0, 0⟩
  | [_] => .error ⟨1, 1⟩
  | filePath :: hexPos :: _ =>
    match convertToOtel fs filePath hexPos with
    | .error _ => .ok readers
    | .ok reader => .ok (readers ++ [reader])

def convertFilePos (fs : FileSystem) (lines : List Str) : Except Panic (List Reader × Str) := do
  let readers ← lines.foldlM (convertLine fs) []
  .ok (readers, syncLastPollFiles readers)

/-! ## The lines of a position file -/

def HexText (s : Str) : Prop := s ≠ [] ∧ ∀ c ∈ s, isHex c = true

theorem hexText_singleton {c : Char} (h : isHex c = true) : HexText [c] :=
  ⟨cons_ne_nil _ _, forall_mem_singleton.mpr h⟩

structure Entry where
  path : Str
  offset : Str
  inode : Str
  path_ok : '\t' ∉ path ∧ '\n' ∉ path
  offset_ok : HexText offset
  inode_ok : HexText inode

inductive PosLine where
  | blank (s : Str) (h : ∀ c ∈ s, isSpace c = true)
  | entry (e : Entry)

def Entry.text (e : Entry) : Str := e.path ++ '\t' :: (e.offset ++ '\t' :: e.inode)

def PosLine.text : PosLine → Str
  | .blank s _ => s
  | .entry e => e.text

def FileSystem.bytes (fs : FileSystem) (path : Str) : Option (List UInt8) :=
  match fs.openFile path with
  | .error _ => none
  | .ok file => if file.fault.isNone then some file.content else none

def Entry.reader (fs : FileSystem) (e : Entry) : Option Reader :=
  match fs.bytes e.path with
  | none => none
  | some bytes =>
    if hexValue e.offset < 2 ^ 63 then some ⟨⟨bytes.take (min 1000 bytes.length)⟩, hexValue e.offset⟩ else none

def PosLine.reader (fs : FileSystem) : PosLine → Option Reader
  | .blank .. => none
  | .entry e => e.reader fs

def bufferOf (readers : List Reader) : Str :=
  (Nat.toDigits 10 readers.length :: readers.map Reader.json).flatMap (· ++ ['\n'])

variable (readers : List Reader)

theorem syncLastPollFiles_eq : syncLastPollFiles readers = bufferOf readers := by
  have hl (buf : Str) : readers.foldl (fun buf fileReader => encode buf fileReader.json) buf =
      buf ++ (readers.map Reader.json).flatMap (· ++ ['\n']) := by
    induction readers generalizing buf with
    | nil => simp
    | cons r readers ih =>
      rw [foldl_cons, ih, map_cons, flatMap_cons, encode, append_assoc, append_assoc, append_assoc]
  unfold syncLastPollFiles bufferOf
  rw [hl]
  simp [encode]

/-! ## Offsets -/

theorem HexText.noSpace (h : HexText s) : ∀ c ∈ s, isSpace c = false := by
  intro c hc
  have hex := h.2 c hc
  simp only [isHex, Bool.or_eq_true, Bool.and_eq_true, decide_eq_true_eq, Char.le_def, UInt32.le_iff_toNat_le] at hex
  have hn : (0x30 ≤ c.toNat ∧ c.toNat ≤ 0x39) ∨ (0x41 ≤ c.toNat ∧ c.toNat ≤ 0x46) ∨
      (0x61 ≤ c.toNat ∧ c.toNat ≤ 0x66) := by
    rcases hex with (hex | hex) | hex
    · exact .inl hex
    · exact .inr (.inr hex)
    · exact .inr (.inl hex)
  simp only [isSpace, mem_cons, not_mem_nil, or_false, Bool.or_eq_false_iff, Bool.and_eq_false_iff,
    decide_eq_false_iff_not]
  omega

theorem fields_hexText (h : HexText s) : fields s = [s] := (fields_eq_self_iff s).mpr ⟨h.1, h.noSpace⟩

theorem le_foldl_digits (s : Str) (n : Nat) : n ≤ s.foldl (fun n d => 16 * n + digitValue d) n := by
  induction s generalizing n with
  | nil => exact le_refl n
  | cons c s ih =>
    have h := ih (16 * n + digitValue c)
    rw [foldl_cons]
    omega

theorem parseUint_hex (text s : Str) (n : Nat) (hs : ∀ c ∈ s, isHex c = true) (hn : n < 2 ^ 64) :
    parseUint text n s = if s.foldl (fun n d => 16 * n + digitValue d) n < 2 ^ 64 then
      .ok (s.foldl (fun n d => 16 * n + digitValue d) n) else .error (.range text) := by
  induction s generalizing n with
  | nil => rw [parseUint, foldl_nil, if_pos hn]
  | cons c s ih =>
    rw [forall_mem_cons] at hs
    have hd : digitValue c < 16 := digitValue_lt hs.1
    rw [parseUint, if_pos hs.1, foldl_cons]
    split
    · exact ih (16 * n + digitValue c) hs.2 (by omega)
    · have hle := le_foldl_digits s (16 * n + digitValue c)
      rw [if_neg (by omega)]

theorem parseInt_hexText (h : HexText s) :
    parseInt s = if hexValue s < 2 ^ 63 then .ok (hexValue s : Int) else .error (.range s) := by
  obtain ⟨c, t, rfl⟩ := exists_cons_of_ne_nil h.1
  have hc := h.2 c mem_cons_self
  have hs : parseInt (c :: t) = parseSigned (c :: t) false (c :: t) := by
    unfold parseInt
    split
    · rename_i heq
      cases heq
      cases hc
    · rename_i heq
      cases heq
      cases hc
    · rfl
  have hun : parseUint (c :: t) 0 (c :: t) =
      if hexValue (c :: t) < 2 ^ 64 then .ok (hexValue (c :: t)) else .error (.range (c :: t)) :=
    parseUint_hex _ _ _ h.2 (by norm_num)
  rw [hs, parseSigned, if_neg (by simp), hun]
  by_cases h64 : hexValue (c :: t) < 2 ^ 64
  · rw [if_pos h64]
    dsimp only
    rw [if_neg Bool.false_ne_true]
    split
    · rw [if_neg (by omega)]
    · rw [if_pos (by omega)]
  · rw [if_neg h64, if_neg (by omega)]

/-! ## A line is converted -/

def Entry.taken (e : Entry) : Str × Str :=
  match fields e.path with
  | [] => (e.offset, e.inode)
  | [filePath] => (filePath, e.offset)
  | filePath :: hexPos :: _ => (filePath, hexPos)

theorem Entry.fields_text (e : Entry) : fields e.text = fields e.path ++ [e.offset, e.inode] := by
  unfold text
  rw [fields_append_space _ (by decide), fields_append_space _ (by decide), fields_hexText e.offset_ok,
    fields_hexText e.inode_ok]
  rfl

theorem Entry.fields_taken (e : Entry) : fields e.taken.1 = [e.taken.1] := by
  unfold taken
  split
  · exact fields_hexText e.offset_ok
  · rename_i filePath h
    exact fields_of_mem (h ▸ mem_cons_self)
  · rename_i filePath hep rest h
    exact fields_of_mem (h ▸ mem_cons_self)

theorem Entry.taken_of_fields {e : Entry} (h : fields e.path = [e.path]) : e.taken = (e.path, e.offset) := by
  unfold taken
  rw [h]

def Entry.converted (fs : FileSystem) (e : Entry) : Option Reader := (convertToOtel fs e.taken.1 e.taken.2).toOption

theorem convertLine_entry (e : Entry) : convertLine fs readers e.text = .ok (readers ++ (e.converted fs).toList) := by
  have hl (filePath hep : Str) (rest : List Str) (h : fields e.text = filePath :: hep :: rest) :
      convertLine fs readers e.text = .ok (readers ++ (convertToOtel fs filePath hep).toOption.toList) := by
    unfold convertLine
    rw [h]
    dsimp only
    cases convertToOtel fs filePath hep with
    | error err => exact congrArg Except.ok (append_nil readers).symm
    | ok reader => rfl
  have hf := e.fields_text
  unfold Entry.converted Entry.taken
  split
  · rename_i hpath
    rw [hpath] at hf
    exact hl _ _ _ hf
  · rename_i filePath hpath
    rw [hpath] at hf
    exact hl _ _ _ hf
  · rename_i filePath hep rest hpath
    rw [hpath] at hf
    exact hl _ _ _ hf

theorem convertLine_blank (h : ∀ c ∈ s, isSpace c = true) : convertLine fs readers s = .error ⟨0, 0⟩ := by
  unfold convertLine
  rw [fields_blank h]

def PosLine.converted (fs : FileSystem) : PosLine → Option Reader
  | .blank .. => none
  | .entry e => e.converted fs

def PosLine.isBlank : PosLine → Bool
  | .blank .. => true
  | .entry _ => false

theorem foldlM_convertLine (lines : List PosLine) (readers : List Reader) :
    (lines.map PosLine.text).foldlM (convertLine fs) readers =
      if lines.any PosLine.isBlank then .error ⟨0, 0⟩ else .ok (readers ++ lines.filterMap (PosLine.converted fs)) := by
  induction lines generalizing readers with
  | nil => simp [pure, Except.pure]
  | cons l lines ih =>
    rw [map_cons, foldlM_cons]
    cases l with
    | blank s h =>
      rw [PosLine.text, convertLine_blank fs readers h]
      rfl
    | entry e =>
      rw [PosLine.text, convertLine_entry]
      change (lines.map PosLine.text).foldlM (convertLine fs) (readers ++ (e.converted fs).toList) = _
      have hany : (PosLine.entry e :: lines).any PosLine.isBlank = lines.any PosLine.isBlank := rfl
      have hmap : (PosLine.entry e :: lines).filterMap (PosLine.converted fs) =
          (e.converted fs).toList ++ lines.filterMap (PosLine.converted fs) := by
        rw [filterMap_cons, PosLine.converted]
        cases e.converted fs <;> rfl
      rw [ih, hany, hmap, append_assoc]

theorem convertFilePos_eq (lines : List PosLine) :
    convertFilePos fs (lines.map PosLine.text) = if lines.any PosLine.isBlank then .error ⟨0, 0⟩ else
      .ok (lines.filterMap (PosLine.converted fs), bufferOf (lines.filterMap (PosLine.converted fs))) := by
  unfold convertFilePos
  rw [foldlM_convertLine]
  split
  · rfl
  · rw [← syncLastPollFiles_eq]
    rfl

/-! ## Both readers -/

variable (path : Str)

theorem getFingerPrint_eq :
    (getFingerPrint fs path).toOption = (fs.bytes path).map fun bytes => ⟨bytes.take (min 1000 bytes.length)⟩ := by
  unfold getFingerPrint FileSystem.bytes
  cases fs.openFile path with
  | error e => rfl
  | ok file =>
    obtain ⟨content, fault⟩ := file
    unfold File.readAt
    cases fault with
    | some text => rfl
    | none =>
      dsimp only
      by_cases hlen : content.length < 1000
      · rw [if_pos hlen]
        change some (Fingerprint.mk content) = some ⟨content.take (min 1000 content.length)⟩
        rw [Nat.min_eq_right hlen.le, take_length]
      · rw [if_neg hlen]
        change some (Fingerprint.mk (content.take 1000)) = some ⟨content.take (min 1000 content.length)⟩
        rw [Nat.min_eq_left (not_lt.mp hlen)]

theorem convertToOtel_eq (hep : Str) : (convertToOtel fs path hep).toOption =
      (fs.bytes path).bind fun bytes => (parseInt hep).toOption.map fun offset =>
        ⟨⟨bytes.take (min 1000 bytes.length)⟩, offset⟩ := by
  have hfp := getFingerPrint_eq fs path
  unfold convertToOtel
  cases hget : getFingerPrint fs path with
  | error e =>
    rw [hget] at hfp
    cases hb : fs.bytes path with
    | none => rfl
    | some bytes =>
      rw [hb] at hfp
      cases hfp
  | ok fp =>
    rw [hget] at hfp
    cases hb : fs.bytes path with
    | none =>
      rw [hb] at hfp
      cases hfp
    | some bytes =>
      rw [hb] at hfp
      cases hfp
      cases parseInt hep <;> rfl

theorem Entry.reader_eq (e : Entry) : e.reader fs = (convertToOtel fs e.path e.offset).toOption := by
  rw [convertToOtel_eq, parseInt_hexText e.offset_ok]
  unfold reader
  cases fs.bytes e.path with
  | none => rfl
  | some bytes =>
    dsimp only
    split <;> rfl

def onlyFile (path : Str) (h : path ≠ []) : FileSystem where
  openFile p := if p = path then .ok ⟨[], none⟩ else .error []
  openFile_nil := ⟨[], if_neg (Ne.symm h)⟩

theorem bytes_onlyFile {path : Str} (h : path ≠ []) (p : Str) :
    (onlyFile path h).bytes p = if p = path then some [] else none := by
  unfold FileSystem.bytes onlyFile
  dsimp only
  by_cases hp : p = path
  · rw [if_pos hp, if_pos hp]
    rfl
  · rw [if_neg hp, if_neg hp]

theorem bytes_nil : fs.bytes [] = none := by
  obtain ⟨e, he⟩ := fs.openFile_nil
  unfold FileSystem.bytes
  rw [he]

/-! ## What is carried over -/

/-- The fields are taken from where they stand. Otherwise no reader is meant, and none is made. -/
def Entry.Carried (e : Entry) : Prop :=
  fields e.path = [e.path] ∨ (e.path = [] ∨ 2 ^ 63 ≤ hexValue e.offset) ∧ (parseInt e.taken.2).toOption = none

def PosLine.Carried : PosLine → Prop
  | .blank .. => False
  | .entry e => e.Carried

/-- Every file system has its readers in order, and the buffer holds them. -/
def CarriesOver (lines : List PosLine) : Prop :=
  ∀ fs, convertFilePos fs (lines.map PosLine.text) =
    .ok (lines.filterMap (PosLine.reader fs), bufferOf (lines.filterMap (PosLine.reader fs)))

theorem Entry.Carried.converted_eq {e : Entry} (h : e.Carried) (fs : FileSystem) : e.converted fs = e.reader fs := by
  rcases h with h | ⟨hn, hp⟩
  · rw [Entry.reader_eq, Entry.converted, Entry.taken_of_fields h]
  · have hc : e.converted fs = none := by
      unfold Entry.converted
      rw [convertToOtel_eq, hp]
      cases fs.bytes e.taken.1 <;> rfl
    rw [hc]
    unfold Entry.reader
    rcases hn with hnil | hbig
    · rw [hnil, bytes_nil]
    · cases fs.bytes e.path with
      | none => rfl
      | some bytes => exact (if_neg (not_lt.mpr hbig)).symm

theorem length_filterMap_le {α β : Type} {f g : α → Option β} {l : List α}
    (hfg : ∀ a ∈ l, (f a).isSome → (g a).isSome) : (l.filterMap f).length ≤ (l.filterMap g).length := by
  induction l with
  | nil => exact le_refl _
  | cons a l ih =>
    rw [forall_mem_cons] at hfg
    have hle := ih hfg.2
    rw [filterMap_cons, filterMap_cons]
    cases hf : f a with
    | none =>
      cases hg : g a with
      | none => exact hle
      | some b => exact Nat.le_succ_of_le hle
    | some b =>
      obtain ⟨c, hc⟩ := Option.isSome_iff_exists.mp (hfg.1 (by rw [hf]; rfl))
      rw [hc]
      exact Nat.succ_le_succ hle

theorem isSome_of_filterMap_eq {α β : Type} {f g : α → Option β} {l : List α}
    (hfg : ∀ a ∈ l, (f a).isSome → (g a).isSome) (heq : l.filterMap g = l.filterMap f) :
    ∀ a ∈ l, (g a).isSome → (f a).isSome := by
  intro a ha hga
  by_contra hfa
  obtain ⟨l₁, l₂, rfl⟩ := append_of_mem ha
  have h₁ := length_filterMap_le fun a ha => hfg a (mem_append_left _ ha)
  have h₂ := length_filterMap_le fun a ha => hfg a (mem_append_right _ (mem_cons_of_mem _ ha))
  obtain ⟨b, hb⟩ := Option.isSome_iff_exists.mp hga
  have hlen := congrArg List.length heq
  rw [filterMap_append, filterMap_append, filterMap_cons_some hb,
    filterMap_cons_none (Option.not_isSome_iff_eq_none.mp hfa), length_append, length_append,
    length_cons] at hlen
  omega

theorem CarriesOver.filterMap_eq {lines : List PosLine} (h : CarriesOver lines) (fs : FileSystem) :
    lines.any PosLine.isBlank = false ∧
      lines.filterMap (PosLine.converted fs) = lines.filterMap (PosLine.reader fs) := by
  have hfs := h fs
  rw [convertFilePos_eq] at hfs
  split at hfs
  · cases hfs
  · rename_i hb
    exact ⟨by simpa using hb, congrArg Prod.fst (Except.ok.inj hfs)⟩

section
variable {lines : List PosLine} (h : CarriesOver lines) {e : Entry} (he : .entry e ∈ lines)
  (hpath : fields e.path ≠ [e.path])
include h he hpath

theorem CarriesOver.offset_out_of_range : e.path = [] ∨ 2 ^ 63 ≤ hexValue e.offset := by
  by_contra hr
  rw [not_or, not_le] at hr
  have hn : lines.filterMap (PosLine.converted (onlyFile e.path hr.1)) = [] := by
    rw [filterMap_eq_nil_iff]
    intro l _
    cases l with
    | blank s hs => rfl
    | entry e' =>
      have ht : e'.taken.1 ≠ e.path := fun heq => hpath (heq ▸ e'.fields_taken)
      change (convertToOtel _ e'.taken.1 e'.taken.2).toOption = none
      rw [convertToOtel_eq, bytes_onlyFile, if_neg ht]
      rfl
  have hre : e.reader (onlyFile e.path hr.1) = some ⟨⟨[]⟩, hexValue e.offset⟩ := by
    unfold Entry.reader
    rw [bytes_onlyFile, if_pos rfl]
    exact if_pos hr.2
  have hmem : ⟨⟨[]⟩, hexValue e.offset⟩ ∈ lines.filterMap (PosLine.reader (onlyFile e.path hr.1)) :=
    mem_filterMap.mpr ⟨_, he, hre⟩
  rw [← (h.filterMap_eq _).2, hn] at hmem
  cases hmem

theorem CarriesOver.taken_malformed : (parseInt e.taken.2).toOption = none := by
  by_contra hp
  obtain ⟨offset, ho⟩ := Option.ne_none_iff_exists'.mp hp
  have hne : e.taken.1 ≠ [] := ((fields_eq_self_iff _).mp e.fields_taken).1
  have hc : (e.converted (onlyFile e.taken.1 hne)).isSome := by
    unfold Entry.converted
    rw [convertToOtel_eq, bytes_onlyFile, if_pos rfl, ho]
    rfl
  have hr (e' : Entry) (hso : (e'.reader (onlyFile e.taken.1 hne)).isSome) : e'.path = e.taken.1 := by
    by_contra hot
    unfold Entry.reader at hso
    rw [bytes_onlyFile, if_neg hot] at hso
    cases hso
  have hm := isSome_of_filterMap_eq (l := lines) (f := PosLine.reader (onlyFile e.taken.1 hne)) (fun l _ hso => ?_)
    (h.filterMap_eq _).2 _ he hc
  · exact hpath (hr e hm ▸ e.fields_taken)
  · cases l with
    | blank s hs => cases hso
    | entry e' =>
      have hca : e'.Carried := .inl (hr e' hso ▸ e.fields_taken)
      rw [PosLine.converted, hca.converted_eq]
      exact hso

end

theorem carriesOver_iff (lines : List PosLine) : CarriesOver lines ↔ ∀ l ∈ lines, l.Carried := by
  constructor
  · intro h l hl
    cases l with
    | blank s hs =>
      have hb := (h.filterMap_eq (onlyFile ['a'] (by decide))).1
      rw [any_eq_false] at hb
      exact hb _ hl rfl
    | entry e =>
      by_cases hpath : fields e.path = [e.path]
      · exact .inl hpath
      · exact .inr ⟨h.offset_out_of_range hl hpath, h.taken_malformed hl hpath⟩
  · intro h fs
    have hb : lines.any PosLine.isBlank = false := by
      rw [any_eq_false]
      intro l hl
      cases l with
      | blank s hs => exact (h _ hl).elim
      | entry e => exact Bool.false_ne_true
    have heq : lines.filterMap (PosLine.converted fs) = lines.filterMap (PosLine.reader fs) := by
      apply filterMap_congr
      intro l hl
      cases l with
      | blank s hs => exact (h _ hl).elim
      | entry e => exact Entry.Carried.converted_eq (h _ hl) fs
    rw [convertFilePos_eq, hb, heq]
    rfl

def spacedEntry : Entry where
  path := "/log/my app"
  offset := ['a']
  inode := ['1']
  path_ok := by decide
  offset_ok := hexText_singleton rfl
  inode_ok := hexText_singleton rfl

/-- The file is `/log/my app`. -/
theorem not_carriesOver_spaced : ¬ CarriesOver [.entry spacedEntry] ∧ ¬ CarriesOver [.blank [] (by simp)] := by
  constructor
  · intro h
    have hr := (h.filterMap_eq (onlyFile spacedEntry.path (by decide))).2
    exact absurd hr (by decide)
  · intro h
    have hb := (h.filterMap_eq (onlyFile ['a'] (by decide))).1
    exact absurd hb (by decide)

end Collector.MigrateCheckpoint
