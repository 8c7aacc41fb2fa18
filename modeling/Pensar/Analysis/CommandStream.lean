import Pensar.Analysis.CommandReads
import Pensar.Analysis.ObjectStream
import Pensar.Interface.CommandTree

/-!
# Command trees in binary streams

Writing a well built tree appends its bytes (`write_streamBytes`), with a `ClassInfo` in
front of every node.  Reading it back, the loop gets the children as long as they are
`NullCommand`s (`readFrom_nulls`), the one class that is registered.  At the first child of
another class `read` gives up and leaves the rest of the bytes where they are
(`readFrom_other`).

Main result: `streamsBack_iff`.
-/

set_option autoImplicit false

namespace Pensar.Analysis

open Pensar.Computation
open Pensar.Model
open Pensar.Model.CompositeCommand (MAX_COMMANDS readFrom)
open Pensar.Interface
open Pensar.Analysis.BinaryBuffer
open Pensar.Analysis.RecordType

variable {L : Type}

/-! ## Writing -/

abbrev baseBytes (base : CommandBase) : List Byte := derivedBytes CommandBase.record base

mutual

/-- The bytes of a command in a stream. -/
def streamBytes : Command L → List Byte
  | .leaf base _ => baseBytes base
  | .null base => NullCommand.INFO.bytes ++ baseBytes base
  | .composite ⟨base, mcommands, mindex⟩ =>
    CompositeCommand.INFO.bytes ++
      (baseBytes base ++
        (SizeT.layout.encode (.ofNat 64 mindex) ++ streamBytesFrom mcommands mindex))

def streamBytesFrom : List (Ptr (Command L)) → ℕ → List Byte
  | _, 0 => []
  | .live c :: ps, n + 1 => streamBytes c ++ streamBytesFrom ps n
  | _, _ + 1 => []

end

theorem streamBytesFrom_children (children : List (Command L)) (rest : List (Ptr (Command L))) :
    streamBytesFrom (children.map .live ++ rest) children.length =
      children.flatMap streamBytes := by
  induction children with
  | nil => simp [streamBytesFrom]
  | cons c cs ih => simp [streamBytesFrom, ih]

@[simp] theorem streamBytes_composite (base : CommandBase) (children : List (Command L))
    (rest : List (Ptr (Command L))) :
    streamBytes (.composite ⟨base, children.map .live ++ rest, children.length⟩) =
      CompositeCommand.INFO.bytes ++
        (baseBytes base ++
          (SizeT.layout.encode (.ofNat 64 children.length) ++ children.flatMap streamBytes)) := by
  rw [streamBytes, streamBytesFrom_children]

theorem commandBase_write_eq (base : CommandBase) (bb : BinaryBuffer) :
    base.write bb = bb.write (baseBytes base) := by
  rw [CommandBase.write, Derived.write, Object.write, RecordType.write_eq, RecordType.write_eq,
    write_write]
  rfl

theorem writeFrom_streamBytes (children : List (Command L)) (rest : List (Ptr (Command L)))
    (hwrite : ∀ c ∈ children, ∀ bb, c.write bb = .value (bb.write (streamBytes c)))
    (bb : BinaryBuffer) (h : bb.writePos ≤ bb.buffer.length) :
    writeFrom (children.map .live ++ rest) children.length bb =
      .value (bb.write (children.flatMap streamBytes)) := by
  induction children generalizing bb with
  | nil => simp [writeFrom, write_nil h]
  | cons c cs ih =>
    have hcs := ih (fun d hd => hwrite d (by simp [hd])) (bb.write (streamBytes c))
      (write_inBounds bb _)
    simp only [List.map_cons, List.cons_append, List.length_cons, writeFrom, hwrite c (by simp) bb,
      Outcome.value_bind, hcs, write_write, List.flatMap_cons]

/-- **Writing a well built command appends its bytes.** -/
theorem write_streamBytes {c : Command L} (hc : WellBuilt c) (bb : BinaryBuffer) :
    c.write bb = .value (bb.write (streamBytes c)) := by
  induction hc generalizing bb with
  | leaf base cmd => rw [Command.write, streamBytes, commandBase_write_eq]
  | null base => rw [Command.write, streamBytes, commandBase_write_eq, write_write]
  | composite base children rest _ _ ih =>
    rw [Command.write, streamBytes_composite, commandBase_write_eq, BinaryBuffer.writePod,
      writeFrom_streamBytes children rest ih _ (write_inBounds _ _)]
    simp only [write_write, List.append_assoc]

/-! ## Reading -/

theorem readPod_unread {α : Type} {M : Layout α} {bb : BinaryBuffer} {q : List Byte} {x : α}
    (h : Unread bb (M.encode x ++ q)) (h0 : 0 < M.width) (y : α) :
    bb.readPod M y = (x, advance bb M.width, []) ∧ Unread (advance bb M.width) q := by
  obtain ⟨stale, hstale⟩ := unread_readable h
  have htake : (readable bb).take M.width = M.encode x := by
    rw [hstale, List.append_assoc]
    exact List.take_left' (M.encode_length x)
  refine ⟨?_, ?_⟩
  · rw [readPod_of_le y h0 (by rw [hstale]; simp), htake, M.decode_encode]
  · have hadv := unread_advance h (n := M.width) (by simp)
    rwa [List.drop_left' (M.encode_length x)] at hadv

theorem readFrom_nulls (bases : List CommandBase) (todo : ℕ) {i : ℕ}
    {mcommands : List (Ptr (Command L))} {bb : BinaryBuffer} {q : List Byte} (g : Generator)
    (h : Unread bb ((bases.map (Command.null (L := L))).flatMap streamBytes ++ q))
    (hroom : i + bases.length ≤ MAX_COMMANDS) (hlen : mcommands.length = MAX_COMMANDS) :
    ∃ n g', Unread (advance bb n) q ∧
      readFrom i (bases.length + todo) mcommands bb g =
        readFrom (i + bases.length) todo (fill mcommands i bases) (advance bb n) g' := by
  induction bases generalizing i mcommands bb g with
  | nil => exact ⟨0, g, h, by simp⟩
  | cons base bases ih =>
    rw [List.length_cons] at hroom
    simp only [List.map_cons, List.flatMap_cons, streamBytes, List.append_assoc] at h
    obtain ⟨hinfo, h₁⟩ := readPod_unread (M := ClassInfo.layout) h (by decide) ClassInfo.null
    obtain ⟨n, hread, h₂⟩ := derived_read_unread CommandBase.record h₁ (NullCommand.new g).1
    rw [advance_advance] at hread h₂
    have hroom' : i + 1 + bases.length ≤ MAX_COMMANDS := by omega
    have hlen' : (mcommands.set i (.live (.null base))).length = MAX_COMMANDS := by
      simpa using hlen
    obtain ⟨m, g', h₃, hrest⟩ := ih (NullCommand.new g).2 h₂ hroom' hlen'
    rw [advance_advance] at h₃ hrest
    refine ⟨ClassInfo.layout.width + n + m, g', h₃, ?_⟩
    have hround : readFrom i (bases.length + todo + 1) mcommands bb g = _ :=
      readFrom_created hinfo fullClassName_nullCommand hread
    rw [if_neg (by omega)] at hround
    rw [List.length_cons, Nat.add_right_comm, hround, hrest, fill_set (by omega)]
    have hindex : i + 1 + bases.length = i + (bases.length + 1) := by omega
    rw [hindex]
    cases readFrom (i + (bases.length + 1)) todo (fill mcommands i (base :: bases))
      (advance bb (ClassInfo.layout.width + n + m)) g' <;> rfl

/-- The bytes of a command that is not a `NullCommand` begin with the `ClassInfo` of
another class, and go on. -/
theorem streamBytes_other {c : Command L} (hc : ∀ base, c ≠ .null base) :
    ∃ (info : ClassInfo) (name : S) (rest : List Byte),
      streamBytes c = info.bytes ++ rest ∧ rest ≠ [] ∧
        info.fullClassName = some name ∧ name ≠ nullCommandName := by
  cases c with
  | leaf base cmd =>
    refine ⟨Object.INFO, _,
      Id.layout.encode base.object.mid ++ encode CommandBase.record base.mdata, ?_, ?_,
      fullClassName_object, by decide⟩
    · simp only [streamBytes, derivedBytes, encode, List.append_assoc]
      rfl
    · simp [← List.length_eq_zero_iff]
  | null base => exact absurd rfl (hc base)
  | composite cc =>
    obtain ⟨base, mcommands, mindex⟩ := cc
    refine ⟨CompositeCommand.INFO, _, _, by rw [streamBytes], ?_,
      fullClassName_compositeCommand, by decide⟩
    simp [derivedBytes, encode, ← List.length_eq_zero_iff]

theorem readFrom_other {c : Command L} (hc : ∀ base, c ≠ .null base) {bb : BinaryBuffer}
    {q : List Byte} (h : Unread bb (streamBytes c ++ q)) (i todo : ℕ)
    (mcommands : List (Ptr (Command L))) (g : Generator) :
    ∃ n q' log, readFrom i (todo + 1) mcommands bb g = .value ⟨mcommands, advance bb n, g, log⟩ ∧
      Unread (advance bb n) q' ∧ q' ≠ [] := by
  obtain ⟨info, name, rest, hbytes, hrest, hname, hother⟩ := streamBytes_other hc
  rw [hbytes, List.append_assoc] at h
  obtain ⟨hinfo, h₁⟩ := readPod_unread (M := ClassInfo.layout) h (by decide) ClassInfo.null
  exact ⟨_, _, _, readFrom_unknown hinfo hname hother, h₁, by simp [hrest]⟩

/-! ## The round trip -/

/-- Take the `ClassInfo` off the stream and read over a new composite. -/
def readNew (L : Type) (bb : BinaryBuffer) (g : Generator) (aid : Id) :
    Outcome (ReadResult (CompositeCommand (Command L))) :=
  let (cc, g) := CompositeCommand.new g aid
  let (_, bb, _) := bb.readPod ClassInfo.layout .null
  cc.read bb g

/-- What was written to `bb` reads back into a new composite: the same tree, and the read
ends where the write did. -/
def StreamsBack (cc : CompositeCommand (Command L)) (bb : BinaryBuffer) (g : Generator)
    (aid : Id) : Prop :=
  ∃ bb₁ r, Command.write (.composite cc) bb = .value bb₁ ∧ readNew L bb₁ g aid = .value r ∧
    Same (.composite cc) (.composite r.cmd) ∧ r.bb.readPos = bb₁.writePos

/-- The `NullCommand`s at the front of the children, and the rest. -/
theorem exists_nulls (children : List (Command L)) :
    ∃ (bases : List CommandBase) (tail : List (Command L)), children = bases.map .null ++ tail ∧
      ∀ c ∈ tail.head?, ∀ base, c ≠ .null base := by
  induction children with
  | nil => exact ⟨[], [], rfl, by simp⟩
  | cons c cs ih =>
    by_cases hc : ∃ base, c = .null base
    · obtain ⟨base, rfl⟩ := hc
      obtain ⟨bases, tail, rfl, htail⟩ := ih
      exact ⟨base :: bases, tail, rfl, htail⟩
    · refine ⟨[], c :: cs, rfl, ?_⟩
      simpa using hc

theorem readNew_eq {base : CommandBase} {n : ℕ} (hn : n ≤ MAX_COMMANDS) {bb : BinaryBuffer}
    {q : List Byte}
    (h : Unread bb (CompositeCommand.INFO.bytes ++
      (baseBytes base ++ (SizeT.layout.encode (.ofNat 64 n) ++ q))))
    (g : Generator) (aid : Id) :
    ∃ m g', Unread (advance bb m) q ∧
      readNew L bb g aid =
        readFrom 0 n (List.replicate MAX_COMMANDS .null) (advance bb m) g' >>=
          fun r => pure ⟨⟨base, r.cmd, n⟩, r.bb, r.g, r.log⟩ := by
  obtain ⟨hinfo, h₁⟩ := readPod_unread (M := ClassInfo.layout) h (by decide) ClassInfo.null
  obtain ⟨k, hbase, h₂⟩ := derived_read_unread CommandBase.record h₁
    (CompositeCommand.new (K := Command L) g aid).1.base
  obtain ⟨hcount, h₃⟩ := readPod_unread (M := SizeT.layout) h₂ (by decide) (.ofNat 64 0)
  simp only [advance_advance, add_assoc] at hbase hcount h₃
  have hn' : (BitVec.ofNat 64 n).toNat = n := by
    simp only [MAX_COMMANDS] at hn
    simp only [BitVec.toNat_ofNat]
    omega
  refine ⟨_, (CompositeCommand.new (K := Command L) g aid).2, h₃, ?_⟩
  have hmindex : (CompositeCommand.new (K := Command L) g aid).1.mindex = 0 := rfl
  have hmcommands : (CompositeCommand.new (K := Command L) g aid).1.mcommands =
      List.replicate MAX_COMMANDS .null := rfl
  unfold readNew
  simp only [hinfo, CompositeCommand.read, CommandBase.read, hbase, hmindex, hcount, hn',
    hmcommands, List.append_nil, List.nil_append]

/-- The composite with these children, whatever stands behind them in the array. -/
abbrev compositeOf (base : CommandBase) (children : List (Command L))
    (rest : List (Ptr (Command L))) : Command L :=
  .composite ⟨base, children.map .live ++ rest, children.length⟩

theorem newArray_length :
    (List.replicate MAX_COMMANDS (Ptr.null : Ptr (Command L))).length = MAX_COMMANDS :=
  List.length_replicate

theorem readNew_nulls {base : CommandBase} {bases : List CommandBase}
    {rest : List (Ptr (Command L))} (hroom : bases.length ≤ MAX_COMMANDS) {bb : BinaryBuffer}
    (h : Unread bb (streamBytes (compositeOf base (bases.map .null) rest))) (g : Generator)
    (aid : Id) :
    ∃ r, readNew L bb g aid = .value r ∧
      Same (compositeOf base (bases.map .null) rest) (.composite r.cmd) ∧
      r.bb.readPos = bb.writePos := by
  rw [streamBytes_composite] at h
  obtain ⟨m, g', h₁, hnew⟩ := readNew_eq (L := L) (by simpa using hroom) h g aid
  rw [← List.append_nil (List.flatMap _ _)] at h₁
  obtain ⟨n, g'', h₂, hloop⟩ := readFrom_nulls bases 0 (i := 0) g' h₁ (by omega) newArray_length
  rw [advance_advance] at h₂ hloop
  rw [Nat.add_zero, readFrom] at hloop
  rw [List.length_map, hloop] at hnew
  refine ⟨_, hnew, ?_, ?_⟩
  · have hfill : fill (L := L) (List.replicate MAX_COMMANDS .null) 0 bases =
        (bases.map Command.null).map .live ++
          List.replicate (MAX_COMMANDS - bases.length) .null := by
      simp [fill, Function.comp_def]
    rw [hfill]
    have hsame := Same.composite base (bases.map Command.null) (bases.map Command.null) rest
      (List.replicate (MAX_COMMANDS - bases.length) .null) rfl (by
        intro i hi hi'
        rw [List.getElem_map]
        exact .null _)
    simpa only [compositeOf, List.length_map] using hsame
  · have hnone : 0 = bb.writePos - (advance bb (m + n)).readPos := h₂.length_eq
    have hord : (advance bb (m + n)).readPos ≤ bb.writePos := h₂.ordered
    show (advance bb (m + n)).readPos = bb.writePos
    omega

/-- A composite with a child of another class does not: bytes are left over. -/
theorem readNew_other (bases : List CommandBase) {c : Command L} (tail : List (Command L))
    (hc : ∀ base, c ≠ .null base) {base : CommandBase} {rest : List (Ptr (Command L))}
    (hroom : (bases.map Command.null ++ c :: tail).length ≤ MAX_COMMANDS) {bb : BinaryBuffer}
    (h : Unread bb (streamBytes (compositeOf base (bases.map .null ++ c :: tail) rest)))
    (g : Generator) (aid : Id) :
    ∃ r, readNew L bb g aid = .value r ∧ r.bb.readPos < bb.writePos := by
  rw [streamBytes_composite] at h
  obtain ⟨m, g', h₁, hnew⟩ := readNew_eq (L := L) hroom h g aid
  rw [List.flatMap_append, List.flatMap_cons] at h₁
  have hlen : (bases.map Command.null ++ c :: tail).length = bases.length + (tail.length + 1) := by
    simp
  rw [hlen] at hroom hnew
  obtain ⟨n, g'', h₂, hloop⟩ := readFrom_nulls bases (tail.length + 1) (i := 0) g' h₁ (by omega)
    newArray_length
  obtain ⟨k, q, log, hother, h₃, hq⟩ := readFrom_other hc h₂ (0 + bases.length) tail.length
    (fill (List.replicate MAX_COMMANDS .null) 0 bases) g''
  rw [hloop, hother] at hnew
  refine ⟨_, hnew, ?_⟩
  simp only [advance_advance] at h₃
  have hleft := h₃.length_eq
  have hpos : 0 < q.length := List.length_pos_iff.mpr hq
  simp only [advance_advance, advance_writePos] at hleft ⊢
  omega

/-- **A tree comes back exactly when all children of its root are `NullCommand`s.** -/
theorem streamsBack_iff (cc : CompositeCommand (Command L)) (hcc : WellBuilt (.composite cc))
    (bb : BinaryBuffer) (hwrite : bb.writePos = 0) (hread : bb.readPos = 0) (g : Generator)
    (aid : Id) :
    StreamsBack cc bb g aid ↔
      ∀ p ∈ cc.mcommands.take cc.mindex, ∃ base, p = .live (.null base) := by
  have hwritten := write_streamBytes hcc bb
  have hempty : Unread bb [] := ⟨by omega, by omega, by simp [hwrite]⟩
  have h := unread_write hempty (streamBytes (.composite cc))
  rw [List.nil_append] at h
  generalize hcmd : Command.composite cc = cmd at hcc
  cases hcc with
  | leaf base cmd => cases hcmd
  | null base => cases hcmd
  | composite base children rest hlen _ =>
    cases hcmd
    have hroom : children.length ≤ MAX_COMMANDS := by simp at hlen; omega
    have hslots : (children.map Ptr.live ++ rest).take children.length = children.map .live :=
      List.take_left' (List.length_map _)
    rw [hslots]
    obtain ⟨bases, tail, rfl, htail⟩ := exists_nulls children
    cases tail with
    | nil =>
      rw [List.append_nil] at *
      obtain ⟨r, hnew, hsame, hend⟩ := readNew_nulls (by simpa using hroom) h g aid
      refine ⟨fun _ => ?_, fun _ => ⟨_, r, hwritten, hnew, hsame, hend⟩⟩
      simp
    | cons c tail =>
      obtain ⟨r, hnew, hend⟩ := readNew_other bases tail (by simpa using htail) hroom h g aid
      constructor
      · rintro ⟨bb₁, r', hbb₁, hr', -, hend'⟩
        rw [hwritten] at hbb₁
        cases hbb₁
        rw [hnew] at hr'
        cases hr'
        omega
      · intro hnulls
        obtain ⟨base, hbase⟩ := hnulls (.live c) (by simp)
        exact absurd (Ptr.live.inj hbase) (htail c (by simp) base)

/-- The composite of `CompositeCmdBinaryStreaming`. -/
theorem streamsBack_one_null :
    StreamsBack (L := Empty) (ofChildren ⟨⟨2⟩, .UNKNOWN⟩ [.null ⟨⟨1⟩, .UNKNOWN⟩]) .new (.new 1)
      NULL_ID := by
  have hchildren : ∀ c ∈ [Command.null (L := Empty) ⟨⟨1⟩, .UNKNOWN⟩], WellBuilt c := by
    simp [WellBuilt.null]
  have hbuilt := wellBuilt_ofChildren ⟨⟨2⟩, .UNKNOWN⟩ (by decide) hchildren
  exact (streamsBack_iff _ hbuilt .new rfl rfl (.new 1) NULL_ID).mpr (by simp [ofChildren])

/-- A composite in a composite does not come back. -/
theorem not_streamsBack_nested :
    ¬ ∀ cc : CompositeCommand (Command Empty), WellBuilt (.composite cc) →
      ∀ g aid, StreamsBack cc .new g aid := by
  intro h
  let inner : Command Empty := .composite (ofChildren ⟨⟨1⟩, .UNKNOWN⟩ [])
  let outer : CompositeCommand (Command Empty) := ofChildren ⟨⟨2⟩, .UNKNOWN⟩ [inner]
  have hinner : WellBuilt inner := wellBuilt_ofChildren _ (by decide) (by simp)
  have houter : WellBuilt (.composite outer) :=
    wellBuilt_ofChildren _ (by decide) (by simpa using hinner)
  obtain ⟨bb₁, r, hbb₁, hr, -, hend⟩ := h outer houter (.new 1) NULL_ID
  have hempty : Unread .new [] := ⟨Nat.le_refl _, Nat.le_refl _, rfl⟩
  have hwritten := unread_write hempty (streamBytes (.composite outer))
  cases (write_streamBytes houter .new).symm.trans hbb₁
  have hother : ∀ base, inner ≠ .null base := by simp [inner]
  obtain ⟨r', hr', hleft⟩ := readNew_other [] [] hother (by decide) hwritten (.new 1) NULL_ID
  cases hr'.symm.trans hr
  omega

end Pensar.Analysis
