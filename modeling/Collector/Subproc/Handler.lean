import Collector.Lib.Panic
import Collector.Subproc.Messages
import Collector.Value

/-!
# The handler of a subprocess's messages

`RecvMessage` does not go on after a message of which some payload is unread.
-/

namespace Collector.Subproc

open Lib List

/-! ## Messages -/

def messageTypeLog : Nat := 4

def messageTypeDatapointJSONList : Nat := 200

def messageTypeDatapointProtobufList : Nat := 201

structure BodySendFormat (V : Type) where
  metric : Str
  timestamp : Int
  value : V
  dimensions : List (Str × Str)

inductive DatapointType where
  | counter
  | gauge
  | count
deriving DecidableEq

/-- A time of `fromTs`: so many nanoseconds after 1970, or before now. -/
inductive Timestamp where
  | unix (nanoseconds : Int)
  | ago (nanoseconds : Int)
deriving DecidableEq

structure Datapoint (W : Type) where
  metric : Str
  dimensions : List (Str × Str)
  value : W
  type : DatapointType
  timestamp : Timestamp
deriving DecidableEq

structure LogMessage where
  message : Str
  level : Str
  logger : Str
  sourcePath : Str
  lineNumber : Int
  createdTime : Str

/-- `metricTypeValue` is `sfxmodel.MetricType_value` at the upper-case name, and `enough` says that the bytes hold a
whole value or an error for `json.Decoder`. -/
structure Packages (V W P : Type) where
  metricTypeValue : Str → Option Int
  cumulativeCounter : Int
  gauge : Int
  counter : Int
  /-- `easyjson.UnmarshalFromReader`, with the entries in the order in which the loop gets them. -/
  unmarshalJSON : Bytes → Option (List (Str × List (Option (BodySendFormat V))))
  valueToValue : V → Option W
  /-- `proto.Unmarshal` of a `DataPointUploadMessage`. -/
  unmarshalProto : Bytes → Option (List P)
  /-- `signalfx.NewProtobufDataPointWithType`. The outer `none` is a panic, the inner one an error. -/
  newProtobufDataPointWithType : P → Option (Option (Datapoint W))
  enough : Bytes → Bool
  decodeLog : Bytes → Option LogMessage

inductive Panic where
  | nilDatapoint
  | unknownMetricType (mt : Int)
  | conversion
deriving DecidableEq

variable {V W P : Type} (pkg : Packages V W P)

def fromMT (mt : Int) : Except Panic DatapointType :=
  if mt = pkg.cumulativeCounter then .ok .counter
  else if mt = pkg.gauge then .ok .gauge
  else if mt = pkg.counter then .ok .count
  else .error (.unknownMetricType mt)

def fromTs (ts : Int) : Timestamp :=
  if 0 < ts then .unix (Int.bmod (ts * 1000000) (2 ^ 64)) else .ago (Int.bmod (1000000 * ts) (2 ^ 64))

def convertJSON (mt : Int) : List (Option (BodySendFormat V)) → Except Panic (List (Datapoint W))
  | [] => .ok []
  | none :: _ => .error .nilDatapoint
  | some dp :: dps =>
    match pkg.valueToValue dp.value with
    | none => convertJSON mt dps
    | some v => do
      let type ← fromMT pkg mt
      let rest ← convertJSON mt dps
      return ⟨dp.metric, dp.dimensions, v, type, fromTs dp.timestamp⟩ :: rest

def sendJSON : List (Str × List (Option (BodySendFormat V))) → Except Panic (List (List (Datapoint W)))
  | [] => .ok []
  | (metricType, dps) :: groups =>
    if dps = [] then sendJSON groups
    else
      match pkg.metricTypeValue metricType with
      | none => sendJSON groups
      | some mt => do
        let out ← convertJSON pkg mt dps
        let rest ← sendJSON groups
        return out :: rest

def convertProto : List P → Except Panic (List (Datapoint W))
  | [] => .ok []
  | point :: points =>
    match pkg.newProtobufDataPointWithType point with
    | none => .error .conversion
    | some none => convertProto points
    | some (some dp) => do
      let rest ← convertProto points
      return dp :: rest

inductive LogEntry where
  | debug (text : Str)
  | info (text : Str)
  | warn (text : Str)
  | error (text : Str)
deriving DecidableEq

def logEntry (msg : LogMessage) : LogEntry :=
  if msg.level = "DEBUG" then .debug msg.message
  else if msg.level = "INFO" then .info msg.message
  else if msg.level = "WARNING" then .warn msg.message
  else if msg.level = "ERROR" then .error msg.message
  else if msg.level = "SEVERE" then .error msg.message
  else if msg.level = "CRITICAL" then .error ("CRITICAL: " ++ msg.message)
  else .info msg.message

/-- The reads of `json.Decoder`, of which there are no more than bytes. `cap` is the capacity of its buffer, of which
at least 512 bytes are free before a read. -/
def readValue : Nat → Nat → Bytes → MessageReadWriter → Bytes × MessageReadWriter
  | 0, _, buf, m => (buf, m)
  | reads + 1, cap, buf, m =>
    if pkg.enough buf then (buf, m)
    else
      let cap := if cap - buf.length < 512 then 2 * cap + 512 else cap
      let got := readPayload (cap - buf.length) m
      if got.1 = [] then (buf, got.2) else readValue reads cap (buf ++ got.1) got.2

inductive HandleError where
  | unmarshal
  | unknownType (msgType : Nat)
deriving DecidableEq

structure Handled (W : Type) where
  sent : List (List (Datapoint W))
  logged : Option LogEntry
  err : Option HandleError
deriving DecidableEq

def handleLogMessage (m : MessageReadWriter) : Handled W × MessageReadWriter :=
  let read := readValue pkg m.lastPayloadReader 0 [] m
  match pkg.decodeLog read.1 with
  | none => (⟨[], none, some .unmarshal⟩, read.2)
  | some msg => (⟨[], some (logEntry msg), none⟩, read.2)

def handleMessage (msgType : Nat) (m : MessageReadWriter) : Except Panic (Handled W × MessageReadWriter) :=
  if msgType = messageTypeDatapointJSONList then
    let (payload, m') := readAllPayload m
    match pkg.unmarshalJSON payload with
    | none => .ok (⟨[], none, some .unmarshal⟩, m')
    | some groups => do
      let sent ← sendJSON pkg groups
      return (⟨sent, none, none⟩, m')
  else if msgType = messageTypeDatapointProtobufList then
    let (payload, m') := readAllPayload m
    match pkg.unmarshalProto payload with
    | none => .ok (⟨[], none, some .unmarshal⟩, m')
    | some points => do
      let out ← convertProto pkg points
      return (⟨[out], none, none⟩, m')
  else if msgType = messageTypeLog then .ok (handleLogMessage pkg m)
  else .ok (⟨[], none, some (.unknownType msgType)⟩, m)

/-- What came of each message. The list says for each round whether the context is done. -/
def processMessages : List Bool → MessageReadWriter → Except Panic (List (Handled W))
  | [], _ => .ok []
  | done :: rounds, m =>
    match done, recvMessage m with
    | true, _ => .ok []
    | false, .error _ => .ok []
    | false, .ok (msgType, m') => do
      let (handled, m'') ← handleMessage pkg msgType m'
      let rest ← processMessages rounds m''
      return handled :: rest

/-! ## Broken messages -/

def KnownType (mt : Int) : Prop := mt = pkg.cumulativeCounter ∨ mt = pkg.gauge ∨ mt = pkg.counter

/-- The group has a null, or a datapoint of a type that `fromMT` does not know. -/
def GroupPanics (mt : Int) (dps : List (Option (BodySendFormat V))) : Prop :=
  none ∈ dps ∨ ¬ KnownType pkg mt ∧ ∃ dp, some dp ∈ dps ∧ pkg.valueToValue dp.value ≠ none

def Message.Panics (m : Message) : Prop :=
  (m.type = messageTypeDatapointJSONList ∧ ∃ groups, pkg.unmarshalJSON m.payload = some groups ∧
    ∃ group ∈ groups, ∃ mt, pkg.metricTypeValue group.1 = some mt ∧ GroupPanics pkg mt group.2) ∨
  (m.type = messageTypeDatapointProtobufList ∧ ∃ points, pkg.unmarshalProto m.payload = some points ∧
    ∃ point ∈ points, pkg.newProtobufDataPointWithType point = none)

/-- The handler reads all of the message's payload, which `reader` has at its front. -/
def Message.ReadToEnd (m : Message) (reader : Pipe UInt8) : Prop :=
  if m.type = messageTypeDatapointJSONList ∨ m.type = messageTypeDatapointProtobufList then True
  else if m.type = messageTypeLog then
    (readValue pkg m.payload.length 0 [] ⟨reader, m.payload.length⟩).2.lastPayloadReader = 0
  else m.payload = []

variable (mt : Int)

theorem fromMT_ok_iff : (∃ type, fromMT pkg mt = .ok type) ↔ KnownType pkg mt := by
  unfold fromMT KnownType
  split
  · simp_all
  · split
    · simp_all
    · split <;> simp_all

theorem convertJSON_ok_iff (dps : List (Option (BodySendFormat V))) :
    (∃ out, convertJSON pkg mt dps = .ok out) ↔ ¬ GroupPanics pkg mt dps := by
  induction dps with
  | nil => simp [convertJSON, GroupPanics]
  | cons dp dps ih =>
    cases dp with
    | none => simp [convertJSON, GroupPanics]
    | some dp =>
      unfold GroupPanics at ih ⊢
      cases hv : pkg.valueToValue dp.value with
      | none => simp_all [convertJSON]
      | some v =>
        have hs : ∃ dp', some dp' ∈ some dp :: dps ∧ pkg.valueToValue dp'.value ≠ none :=
          ⟨dp, by simp, by simp [hv]⟩
        have hc : (∃ out, convertJSON pkg mt (some dp :: dps) = .ok out) ↔
            KnownType pkg mt ∧ ∃ rest, convertJSON pkg mt dps = .ok rest := by
          simp [convertJSON, hv, exists_bind_eq_ok, ← fromMT_ok_iff, pure, Except.pure]
        rw [hc, ih]
        by_cases hk : KnownType pkg mt
        · simp [hk]
        · simp only [hk, hs, false_and, not_false_eq_true, and_self, or_true, not_true_eq_false]

theorem sendJSON_ok_iff (groups : List (Str × List (Option (BodySendFormat V)))) :
    (∃ sent, sendJSON pkg groups = .ok sent) ↔
      ¬ ∃ group ∈ groups, ∃ mt, pkg.metricTypeValue group.1 = some mt ∧ GroupPanics pkg mt group.2 := by
  induction groups with
  | nil => simp [sendJSON]
  | cons group groups ih =>
    obtain ⟨name, dps⟩ := group
    rw [sendJSON]
    split_ifs with hdps
    · rw [ih]
      simp [hdps, GroupPanics]
    · cases hmt : pkg.metricTypeValue name with
      | none =>
        simp only [ih]
        simp [hmt]
      | some mt =>
        simp only [exists_bind_eq_ok]
        simp [pure, Except.pure, hmt, convertJSON_ok_iff, ih]

theorem convertProto_ok_iff (points : List P) : (∃ out, convertProto pkg points = .ok out) ↔
      ¬ ∃ point ∈ points, pkg.newProtobufDataPointWithType point = none := by
  induction points with
  | nil => simp [convertProto]
  | cons point points ih =>
    cases hp : pkg.newProtobufDataPointWithType point with
    | none => simp [convertProto, hp]
    | some converted =>
      cases converted with
      | none =>
        simp only [convertProto, hp]
        rw [ih]
        simp [hp]
      | some dp =>
        simp only [convertProto, hp, exists_bind_eq_ok]
        simp [pure, Except.pure, hp, ih]

/-! ## Well-formed messages -/

def groupDatapoints (group : Str × List (Option (BodySendFormat V))) : Option (List (Datapoint W)) := do
  let mt ← pkg.metricTypeValue group.1
  let type ← (fromMT pkg mt).toOption
  group.2.mapM fun dp => do
    let dp ← dp
    let v ← pkg.valueToValue dp.value
    return ⟨dp.metric, dp.dimensions, v, type, fromTs dp.timestamp⟩

def Message.datapoints (m : Message) : Option (List (List (Datapoint W))) :=
  if m.type = messageTypeDatapointJSONList then do
    let groups ← pkg.unmarshalJSON m.payload
    (groups.filter (¬ ·.2.isEmpty)).mapM (groupDatapoints pkg)
  else if m.type = messageTypeDatapointProtobufList then do
    let points ← pkg.unmarshalProto m.payload
    let out ← points.mapM fun point => (pkg.newProtobufDataPointWithType point).join
    return [out]
  else none

variable {out : List (Datapoint W)}

theorem convertJSON_of_mapM {mt : Int} {type : DatapointType} (ht : fromMT pkg mt = .ok type)
    {dps : List (Option (BodySendFormat V))}
    (h : dps.mapM (fun dp => do
      let dp ← dp
      let v ← pkg.valueToValue dp.value
      return ⟨dp.metric, dp.dimensions, v, type, fromTs dp.timestamp⟩) = some out) :
    convertJSON pkg mt dps = .ok out := by
  induction dps generalizing out with
  | nil => simpa [convertJSON] using h.symm
  | cons dp dps ih =>
    cases dp with
    | none => simp at h
    | some dp =>
      cases hv : pkg.valueToValue dp.value with
      | none => simp [hv] at h
      | some v =>
        simp only [mapM_cons, hv, Option.bind_eq_bind, Option.bind_some, Option.pure_def,
          Option.bind_eq_some_iff, Option.some.injEq] at h
        obtain ⟨rest, hr, rfl⟩ := h
        simp [convertJSON, hv, ht, ih hr, bind, Except.bind, pure, Except.pure]

variable {sent : List (List (Datapoint W))}

theorem sendJSON_of_mapM {groups : List (Str × List (Option (BodySendFormat V)))}
    (h : (groups.filter (¬ ·.2.isEmpty)).mapM (groupDatapoints pkg) = some sent) :
    sendJSON pkg groups = .ok sent := by
  induction groups generalizing sent with
  | nil => simpa [sendJSON] using h.symm
  | cons group groups ih =>
    obtain ⟨name, dps⟩ := group
    by_cases hdps : dps = []
    · rw [sendJSON, if_pos hdps]
      apply ih
      simpa [hdps] using h
    · rw [filter_cons_of_pos (by simp [hdps]), mapM_cons] at h
      simp only [Option.bind_eq_bind, Option.bind_eq_some_iff, groupDatapoints, Option.pure_def, Option.some.injEq] at h
      obtain ⟨out, ⟨mt, hmt, type, ht, hout⟩, rest, hr, rfl⟩ := h
      have ht : fromMT pkg mt = .ok type := by
        cases hf : fromMT pkg mt <;> simp_all [Except.toOption]
      rw [sendJSON, if_neg hdps, hmt]
      simp [convertJSON_of_mapM pkg ht hout, ih hr, bind, Except.bind, pure, Except.pure]

theorem convertProto_of_mapM {points : List P}
    (h : points.mapM (fun point => (pkg.newProtobufDataPointWithType point).join) = some out) :
    convertProto pkg points = .ok out := by
  induction points generalizing out with
  | nil => simpa [convertProto] using h.symm
  | cons point points ih =>
    rw [mapM_cons] at h
    simp only [Option.bind_eq_bind, Option.bind_eq_some_iff, Option.join_eq_some_iff, Option.pure_def,
      Option.some.injEq] at h
    obtain ⟨dp, hdp, rest, hr, rfl⟩ := h
    simp [convertProto, hdp, ih hr, bind, Except.bind, pure, Except.pure]

/-! ## What is left of a payload -/

/-- Some of the `N` bytes of a payload have been read. -/
def Advanced (reader : Pipe UInt8) (N : Nat) (m : MessageReadWriter) : Prop :=
  ∃ k ≤ N, m = ⟨reader.skip k, N - k⟩

variable {reader : Pipe UInt8} {N : Nat} {m : MessageReadWriter}

theorem advanced_start (reader : Pipe UInt8) (N : Nat) : Advanced reader N ⟨reader, N⟩ :=
  ⟨0, Nat.zero_le N, by rw [Pipe.skip_zero, Nat.sub_zero]⟩

theorem Advanced.reader_eq (h : Advanced reader N m) (hm : m.lastPayloadReader = 0) : m = ⟨reader.skip N, 0⟩ := by
  obtain ⟨k, hk, rfl⟩ := h
  have hN : k = N := by
    simp only at hm
    omega
  simp [hN]

theorem Advanced.readPayload (h : Advanced reader N m) (n : Nat) : Advanced reader N (readPayload n m).2 := by
  obtain ⟨k, hk, rfl⟩ := h
  have hle : ((reader.skip k).read (min n (N - k))).1.length ≤ min n (N - k) := Pipe.length_readChunk_le _ _
  refine ⟨k + ((reader.skip k).read (min n (N - k))).1.length, by omega, ?_⟩
  simp only [Subproc.readPayload, MessageReadWriter.mk.injEq]
  refine ⟨?_, by omega⟩
  rw [Pipe.read_snd, Pipe.skip_skip]

theorem Advanced.readValue (h : Advanced reader N m) (reads cap : Nat) (buf : Bytes) :
    Advanced reader N (readValue pkg reads cap buf m).2 := by
  induction reads generalizing cap buf m with
  | zero => exact h
  | succ reads ih =>
    unfold Subproc.readValue
    split
    · exact h
    · extract_lets cap' got
      split
      · exact h.readPayload _
      · exact ih (h.readPayload _) _ _

variable {payload rest : Bytes}

theorem readAllPayload_eq (h : reader.bytes = payload ++ rest) :
    readAllPayload ⟨reader, payload.length⟩ = (payload, ⟨reader.skip payload.length, 0⟩) := by
  simp [readAllPayload, h, Pipe.skip]

/-! ## One message -/

theorem snd_of_bind {ε α β γ : Type} {x : Except ε α} {f : α → β} {b : β} {c c' : γ}
    (h : (do let a ← x; return (f a, c)) = .ok (b, c')) : c' = c := by
  obtain ⟨a, -, ha⟩ := bind_eq_ok.mp h
  cases ha
  rfl

section
variable {msg : Message} {rest : Bytes} (h : reader.bytes = msg.payload ++ rest)
include h

theorem handleMessage_json (ht : msg.type = messageTypeDatapointJSONList) :
    handleMessage pkg msg.type ⟨reader, msg.payload.length⟩ =
      match pkg.unmarshalJSON msg.payload with
      | none => .ok (⟨[], none, some .unmarshal⟩, ⟨reader.skip msg.payload.length, 0⟩)
      | some groups => do
        let sent ← sendJSON pkg groups
        return (⟨sent, none, none⟩, ⟨reader.skip msg.payload.length, 0⟩) := by
  unfold handleMessage
  rw [if_pos ht, readAllPayload_eq h]

theorem handleMessage_proto (ht : msg.type = messageTypeDatapointProtobufList) :
    handleMessage pkg msg.type ⟨reader, msg.payload.length⟩ =
      match pkg.unmarshalProto msg.payload with
      | none => .ok (⟨[], none, some .unmarshal⟩, ⟨reader.skip msg.payload.length, 0⟩)
      | some points => do
        let out ← convertProto pkg points
        return (⟨[out], none, none⟩, ⟨reader.skip msg.payload.length, 0⟩) := by
  unfold handleMessage
  rw [if_neg (by rw [ht]; decide), if_pos ht, readAllPayload_eq h]

omit h in
theorem handleMessage_other (hj : msg.type ≠ messageTypeDatapointJSONList)
    (hp : msg.type ≠ messageTypeDatapointProtobufList) :
    handleMessage pkg msg.type ⟨reader, msg.payload.length⟩ =
      .ok (if msg.type = messageTypeLog then handleLogMessage pkg ⟨reader, msg.payload.length⟩
        else (⟨[], none, some (.unknownType msg.type)⟩, ⟨reader, msg.payload.length⟩)) := by
  unfold handleMessage
  rw [if_neg hj, if_neg hp]
  split <;> rfl

omit h in
theorem handleLogMessage_snd (m : MessageReadWriter) :
    (handleLogMessage pkg m).2 = (readValue pkg m.lastPayloadReader 0 [] m).2 := by
  unfold handleLogMessage
  extract_lets read
  split <;> rfl

theorem handleMessage_ok_iff :
    (∃ r, handleMessage pkg msg.type ⟨reader, msg.payload.length⟩ = .ok r) ↔ ¬ msg.Panics pkg := by
  by_cases hj : msg.type = messageTypeDatapointJSONList
  · have hp : msg.type ≠ messageTypeDatapointProtobufList := by rw [hj]; decide
    rw [handleMessage_json pkg h hj, Message.Panics]
    cases hg : pkg.unmarshalJSON msg.payload with
    | none => simp [hp]
    | some groups =>
      have hs := sendJSON_ok_iff pkg groups
      simp_all [exists_bind_eq_ok, pure, Except.pure]
  · by_cases hp : msg.type = messageTypeDatapointProtobufList
    · rw [handleMessage_proto pkg h hp, Message.Panics]
      cases hpo : pkg.unmarshalProto msg.payload with
      | none => simp [hj]
      | some points =>
        have hc := convertProto_ok_iff pkg points
        simp_all [exists_bind_eq_ok, pure, Except.pure]
    · rw [handleMessage_other pkg hj hp, Message.Panics]
      simp [hj, hp]

theorem handleMessage_rest {ha : Handled W} {m' : MessageReadWriter}
    (hok : handleMessage pkg msg.type ⟨reader, msg.payload.length⟩ = .ok (ha, m')) :
    Advanced reader msg.payload.length m' ∧ (m'.lastPayloadReader = 0 ↔ msg.ReadToEnd pkg reader) := by
  have hend : Advanced reader msg.payload.length ⟨reader.skip msg.payload.length, 0⟩ :=
    ⟨msg.payload.length, Nat.le_refl _, by rw [Nat.sub_self]⟩
  unfold Message.ReadToEnd
  by_cases hj : msg.type = messageTypeDatapointJSONList
  · have hm' : m' = ⟨reader.skip msg.payload.length, 0⟩ := by
      rw [handleMessage_json pkg h hj] at hok
      split at hok
      · cases hok
        rfl
      · exact snd_of_bind hok
    simp [hm', hend, hj]
  · by_cases hp : msg.type = messageTypeDatapointProtobufList
    · have hm' : m' = ⟨reader.skip msg.payload.length, 0⟩ := by
        rw [handleMessage_proto pkg h hp] at hok
        split at hok
        · cases hok
          rfl
        · exact snd_of_bind hok
      simp [hm', hend, hp]
    · rw [handleMessage_other pkg hj hp] at hok
      simp only [hj, hp, or_self, if_false]
      split_ifs at hok with hlog
      · have hm' : m' = (readValue pkg msg.payload.length 0 [] ⟨reader, msg.payload.length⟩).2 := by
          have hl := handleLogMessage_snd pkg ⟨reader, msg.payload.length⟩
          rwa [Except.ok.inj hok] at hl
        rw [if_pos hlog, hm']
        exact ⟨(advanced_start reader _).readValue pkg _ _ _, Iff.rfl⟩
      · cases hok
        rw [if_neg hlog]
        exact ⟨advanced_start reader _, length_eq_zero_iff⟩

theorem handleMessage_datapoints (hs : msg.datapoints pkg = some sent) :
    ∃ ha, handleMessage pkg msg.type ⟨reader, msg.payload.length⟩ =
      .ok (ha, ⟨reader.skip msg.payload.length, 0⟩) ∧ ha.sent = sent := by
  unfold Message.datapoints at hs
  split at hs
  · rename_i hj
    obtain ⟨groups, hg, hs⟩ := Option.bind_eq_some_iff.mp hs
    rw [handleMessage_json pkg h hj, hg]
    refine ⟨⟨sent, none, none⟩, ?_, rfl⟩
    simp only [sendJSON_of_mapM pkg hs]
    rfl
  · split at hs
    · rename_i hpr
      obtain ⟨points, hp, hs⟩ := Option.bind_eq_some_iff.mp hs
      obtain ⟨out, hout, hs⟩ := Option.bind_eq_some_iff.mp hs
      cases hs
      rw [handleMessage_proto pkg h hpr, hp]
      refine ⟨⟨[out], none, none⟩, ?_, rfl⟩
      simp only [convertProto_of_mapM pkg hout]
      rfl
    · cases hs

end

/-! ## All messages -/

/-- The first `n` rounds do not panic, and hand on the well-formed datapoint messages among theirs. -/
def Handed (n : Nat) (msgs : List Message) (m : MessageReadWriter) : Prop :=
  ∃ handled, processMessages pkg (List.replicate n false) m = .ok handled ∧
    ∀ i < n, ∀ msg sent, msgs[i]? = some msg → msg.datapoints pkg = some sent → (handled[i]?).map (·.sent) = some sent

/-- No message makes the handler panic, and one that it does not read to its end is followed by no well-formed
datapoint message. -/
def Clear : List Message → Pipe UInt8 → Prop
  | [], _ => True
  | msg :: msgs, reader =>
    ¬ msg.Panics pkg ∧ (msg.ReadToEnd pkg (reader.skip 8) → Clear msgs (reader.skip (frame msg).length)) ∧
      (¬ msg.ReadToEnd pkg (reader.skip 8) → ∀ msg' ∈ msgs, msg'.datapoints pkg = none)

theorem processMessages_of_error {e : RecvError} (he : recvMessage m = .error e) (n : Nat) :
    processMessages pkg (replicate n false) m = .ok [] := by
  cases n with
  | zero => rfl
  | succ n => simp [replicate_succ, processMessages, he]

theorem processMessages_unread (hm : 0 < m.lastPayloadReader) (n : Nat) :
    processMessages pkg (replicate n false) m = .ok [] := by
  apply processMessages_of_error (e := .notFullyRead)
  unfold recvMessage
  rw [if_pos hm]
  rfl

variable {msgs : List Message} {m₁ : MessageReadWriter}

theorem handed_cons {msg : Message} {m₂ : MessageReadWriter} {ha : Handled W}
    (hr : recvMessage m = .ok (msg.type, m₁)) (hok : handleMessage pkg msg.type m₁ = .ok (ha, m₂))
    (hs : ∀ sent, msg.datapoints pkg = some sent → ha.sent = sent) (n : Nat) :
    Handed pkg (n + 1) (msg :: msgs) m ↔ Handed pkg n msgs m₂ := by
  unfold Handed
  have hp : processMessages pkg (replicate (n + 1) false) m =
      (processMessages pkg (replicate n false) m₂).map (ha :: ·) := by
    simp only [replicate_succ, processMessages, hr, hok, bind, Except.bind]
    cases processMessages pkg (replicate n false) m₂ <;> rfl
  rw [hp]
  cases processMessages pkg (replicate n false) m₂ with
  | error e => simp [Except.map]
  | ok rest =>
    simp only [Except.map, Except.ok.injEq, exists_eq_left']
    constructor
    · intro h i hi msg' sent hmsg' hs'
      exact h (i + 1) (by omega) msg' sent hmsg' hs'
    · intro h i hi msg' sent hmsg' hs'
      cases i with
      | zero =>
        cases hmsg'
        simp [hs sent hs']
      | succ i => exact h i (by omega) msg' sent hmsg' hs'

theorem not_handed_of_panic {msg : Message}
    (hre : recvMessage m = .ok (msg.type, m₁)) (hpa : ¬ ∃ r, handleMessage pkg msg.type m₁ = .ok r) :
    ¬ Handed pkg 1 (msg :: msgs) m := by
  rintro ⟨ha, hp, -⟩
  simp only [replicate_one, processMessages, hre] at hp
  obtain ⟨r, hr, -⟩ := bind_eq_ok.mp hp
  exact hpa ⟨r, hr⟩

theorem handed_unread_iff (hm : 0 < m.lastPayloadReader) :
    (∀ n, Handed pkg n msgs m) ↔ ∀ msg ∈ msgs, msg.datapoints pkg = none := by
  simp only [Handed, processMessages_unread pkg hm, Except.ok.injEq, exists_eq_left', getElem?_nil,
    Option.map_none, reduceCtorEq, imp_false]
  constructor
  · intro h msg hmsg
    obtain ⟨i, hi⟩ := mem_iff_getElem?.mp hmsg
    cases hs : msg.datapoints pkg with
    | none => rfl
    | some sent => exact absurd hs (h (i + 1) i (by omega) msg sent hi)
  · intro h n i _ msg sent hmsg hs
    rw [h msg (mem_of_getElem? hmsg)] at hs
    cases hs

theorem handed_iff (msgs : List Message) (hmsgs : ∀ msg ∈ msgs, msg.Fits) (reader : Pipe UInt8)
    (h : reader.bytes = msgs.flatMap frame) :
    (∀ n, Handed pkg n msgs ⟨reader, 0⟩) ↔ Clear pkg msgs reader := by
  induction msgs generalizing reader with
  | nil =>
    have hsh : reader.bytes.length < 8 := by simp [h]
    obtain ⟨e, he⟩ := recvMessage_short hsh
    simp [Handed, Clear, processMessages_of_error pkg he]
  | cons msg msgs ih =>
    rw [forall_mem_cons] at hmsgs
    rw [flatMap_cons] at h
    have hre : (reader.skip (frame msg).length).bytes = msgs.flatMap frame := by
      rw [Pipe.bytes_skip, h, drop_left]
    rw [frame_eq, append_assoc, append_assoc] at h
    obtain ⟨hr, hpa⟩ := recvMessage_frame hmsgs.1 h
    rw [Clear]
    by_cases hp : msg.Panics pkg
    · have hn : ¬ Handed pkg 1 (msg :: msgs) ⟨reader, 0⟩ := by
        apply not_handed_of_panic pkg hr
        rw [handleMessage_ok_iff pkg hpa, not_not]
        exact hp
      simp only [hp, not_true_eq_false, false_and, iff_false, not_forall]
      exact ⟨1, hn⟩
    · obtain ⟨⟨ha, m₂⟩, hok⟩ := (handleMessage_ok_iff pkg hpa).mpr hp
      obtain ⟨had, hrea⟩ := handleMessage_rest pkg hpa hok
      have hs (sent) (hs : msg.datapoints pkg = some sent) : ha.sent = sent := by
        obtain ⟨ha', hok', hs'⟩ := handleMessage_datapoints pkg hpa hs
        rw [hok] at hok'
        cases hok'
        exact hs'
      -- The first message is handed on by the first round, so the others are left for the other rounds.
      have hro : (∀ n, Handed pkg n (msg :: msgs) ⟨reader, 0⟩) ↔ ∀ n, Handed pkg n msgs m₂ := by
        constructor
        · intro hall n
          exact (handed_cons pkg hr hok hs n).mp (hall (n + 1))
        · intro hall n
          cases n with
          | zero => exact ⟨[], rfl, by simp⟩
          | succ n => exact (handed_cons pkg hr hok hs n).mpr (hall n)
      rw [hro, ← hrea]
      by_cases hm₂ : m₂.lastPayloadReader = 0
      · rw [had.reader_eq hm₂, Pipe.skip_skip, ← length_frame, ih hmsgs.2 _ hre]
        simp [hp]
      · rw [handed_unread_iff pkg (Nat.pos_of_ne_zero hm₂)]
        simp [hp, hm₂]

/-- `{"gauge":[{"metric":"m","value":1}]}`. -/
def gaugePayload : Bytes :=
  [123, 34, 103, 97, 117, 103, 101, 34, 58, 91, 123, 34, 109, 101, 116, 114, 105, 99, 34, 58, 34, 109, 34, 44,
    34, 118, 97, 108, 117, 101, 34, 58, 49, 125, 93, 125]

/-- `{"level":"INFO"}`. -/
def logPayload : Bytes := [123, 34, 108, 101, 118, 101, 108, 34, 58, 34, 73, 78, 70, 79, 34, 125]

def gaugePackages : Packages Int Int Unit where
  metricTypeValue name := if name = ['g', 'a', 'u', 'g', 'e'] then some 0 else none
  cumulativeCounter := 3
  gauge := 0
  counter := 1
  unmarshalJSON payload :=
    if payload = gaugePayload then some [(['g', 'a', 'u', 'g', 'e'], [some ⟨['m'], 0, 1, []⟩])] else none
  valueToValue := some
  unmarshalProto _ := none
  newProtobufDataPointWithType _ := none
  enough buf := decide (buf = logPayload)
  decodeLog buf := if buf = logPayload then some ⟨[], ['I', 'N', 'F', 'O'], [], [], 0, []⟩ else none

def gaugeMessage : Message := ⟨messageTypeDatapointJSONList, gaugePayload⟩

def logFirst : List Message := [⟨messageTypeLog, logPayload⟩, ⟨messageTypeDatapointProtobufList, [255]⟩, gaugeMessage]

def logFirstReader : Pipe UInt8 where
  chunks := [(logFirst.flatMap frame).take 12, (logFirst.flatMap frame).drop 12]
  nonempty := by decide

theorem handed_logFirst :
    logFirstReader.bytes = logFirst.flatMap frame ∧ ∀ n, Handed gaugePackages n logFirst ⟨logFirstReader, 0⟩ := by
  have hf : ∀ msg ∈ logFirst, msg.Fits := by
    unfold Message.Fits
    decide +kernel
  have hb : logFirstReader.bytes = logFirst.flatMap frame := by decide +kernel
  have hlog : Message.ReadToEnd gaugePackages ⟨messageTypeLog, logPayload⟩ (logFirstReader.skip 8) := by
    unfold Message.ReadToEnd
    decide +kernel
  have hg : ¬ gaugeMessage.Panics gaugePackages := by
    simp [Message.Panics, gaugeMessage, gaugePackages, GroupPanics, KnownType, messageTypeDatapointJSONList,
      messageTypeDatapointProtobufList]
  refine ⟨hb, ?_⟩
  apply (handed_iff gaugePackages logFirst hf logFirstReader hb).mpr
  refine ⟨?_, fun _ => ⟨?_, fun _ => ⟨hg, by simp [Clear], by simp⟩, fun h => absurd ?_ h⟩, fun h => absurd hlog h⟩
  · simp [Message.Panics, messageTypeLog, messageTypeDatapointJSONList, messageTypeDatapointProtobufList]
  · simp [Message.Panics, gaugePackages, messageTypeDatapointJSONList, messageTypeDatapointProtobufList]
  · simp [Message.ReadToEnd]

def unknownFirst : List Message := [⟨999, [0]⟩, gaugeMessage]

def unknownFirstReader : Pipe UInt8 where
  chunks := [unknownFirst.flatMap frame]
  nonempty := by decide

theorem not_handed_unknownFirst : unknownFirstReader.bytes = unknownFirst.flatMap frame ∧
      ¬ Handed gaugePackages 2 unknownFirst ⟨unknownFirstReader, 0⟩ := by
  have hb : unknownFirstReader.bytes = unknownFirst.flatMap frame := by decide +kernel
  have hd : gaugeMessage.datapoints gaugePackages = some [[⟨['m'], [], 1, .gauge, .ago 0⟩]] := by
    decide +kernel
  have hs : processMessages gaugePackages [false, false] ⟨unknownFirstReader, 0⟩ =
      .ok [⟨[], none, some (.unknownType 999)⟩] := by
    decide +kernel
  refine ⟨hb, ?_⟩
  rintro ⟨ha, hp, hh⟩
  rw [show replicate 2 false = [false, false] from rfl, hs] at hp
  cases hp
  have hl := hh 1 (by omega) gaugeMessage _ rfl hd
  simp at hl

end Collector.Subproc
