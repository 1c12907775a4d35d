import UlmerOS.Fs.BlockRead

/-!
# The commands of `ata_read`

`ata_read` of `drivers/pc/ata.c` with the registers it writes.  The sector count and the three
block number registers are written twice, and the drive keeps the byte written last and the
one before it, so that a command has a count of 16 bits and a block number of 48.  The
transfer goes through the DMA region of the channel.  Its first block is for the descriptor,
and `BLOCKS_PER_PRD` blocks are left for the data.

A drive is a parameter.  It answers each command with the blocks that are asked for or with an
error, and it may answer differently each time.  The channel that `minor` selects is a
parameter as well.

`ataDmaLoop_eq` goes back to the loop without registers, where what a transfer delivers is
given as a function of the block number and the count.
-/

namespace UlmerOS

open ByteMem

/-! ## The task file -/

/-- A register that is written twice: the byte written last, and the one before it. -/
structure AtaLatch where
  previous : UInt8
  current : UInt8

/-- The drive takes a byte. -/
def AtaLatch.write (l : AtaLatch) (data : UInt8) : AtaLatch := ⟨l.current, data⟩

/-- The registers that a command is made of. -/
structure TaskFile where
  hddevsel : UInt8
  seccount0 : AtaLatch
  lba0 : AtaLatch
  lba1 : AtaLatch
  lba2 : AtaLatch

/-- `ATA_REG_HDDEVSEL`, `ATA_REG_SECCOUNT0` and `ATA_REG_LBA0` to `ATA_REG_LBA2`. -/
inductive AtaReg where
  | hddevsel
  | seccount0
  | lba0
  | lba1
  | lba2

/-- `outb` to a register of the task file. -/
def TaskFile.outb (tf : TaskFile) : AtaReg × UInt8 → TaskFile
  | (.hddevsel, data) => { tf with hddevsel := data }
  | (.seccount0, data) => { tf with seccount0 := tf.seccount0.write data }
  | (.lba0, data) => { tf with lba0 := tf.lba0.write data }
  | (.lba1, data) => { tf with lba1 := tf.lba1.write data }
  | (.lba2, data) => { tf with lba2 := tf.lba2.write data }

/-- What a drive understands as a command of 48 bits. -/
structure AtaCommand where
  drive : Nat
  count : Nat
  lba : Nat

/-- `ATA_CMD_READ_DMA_EXT`.  The low bytes are the ones written last, and a count of zero
stands for `2^16`. -/
def TaskFile.command (tf : TaskFile) : AtaCommand where
  drive := tf.hddevsel.toNat / 16 % 2
  count :=
    let n := tf.seccount0.previous.toNat * 2 ^ 8 + tf.seccount0.current.toNat
    if n = 0 then 2 ^ 16 else n
  lba := tf.lba0.current.toNat + tf.lba1.current.toNat * 2 ^ 8 + tf.lba2.current.toNat * 2 ^ 16 +
    tf.lba0.previous.toNat * 2 ^ 24 + tf.lba1.previous.toNat * 2 ^ 32 +
    tf.lba2.previous.toNat * 2 ^ 40

/-- The bytes that `ata_read` writes before the command, in order. -/
def commandWrites (drive trSize currentLba : Nat) : List (AtaReg × UInt8) :=
  [(.hddevsel, .ofNat (0xe0 ||| drive <<< 4)),
    (.seccount0, .ofNat (trSize >>> 8)),
    (.lba0, .ofNat (currentLba >>> 24 &&& 0xff)),
    (.lba1, .ofNat (currentLba >>> 32 &&& 0xff)),
    (.lba2, .ofNat (currentLba >>> 40 &&& 0xff)),
    (.seccount0, .ofNat (trSize &&& 0xff)),
    (.lba0, .ofNat (currentLba &&& 0xff)),
    (.lba1, .ofNat (currentLba >>> 8 &&& 0xff)),
    (.lba2, .ofNat (currentLba >>> 16 &&& 0xff))]

/-! ## The DMA region -/

/-- What `alloc_dma_region` allocates. -/
def dmaRegionSize : Nat := 16 * 4096

/-- A channel: its task file, the field `bytes` of the descriptor at `prdt`, and the region. -/
structure AtaChannel where
  taskFile : TaskFile
  bytes : Nat
  region : Mem

/-- The descriptor has 16 bits for the number of bytes. -/
def AtaChannel.setBytes (ch : AtaChannel) (n : Nat) : AtaChannel := { ch with bytes := n % 2 ^ 16 }

/-- The bytes that the descriptor stands for. -/
def AtaChannel.prdSize (ch : AtaChannel) : Nat := if ch.bytes = 0 then 2 ^ 16 else ch.bytes

/-- The controller stores what the drive delivers behind the first block of the region, as far
as the descriptor goes. -/
def AtaChannel.transfer (ch : AtaChannel) (command : AtaCommand) (data : Mem) : AtaChannel :=
  let n := min ch.prdSize (command.count * 512)
  { ch with
    region := fun x => if 512 ≤ x ∧ x < 512 + n then data (x - 512) else ch.region x }

/-- What a drive answers to a command, by the number of commands before it.  An error is
`none`. -/
abbrev AtaDrive := Nat → AtaCommand → Option Mem

/-- A drive answers with the blocks that are asked for, or with an error. -/
def AtaDrive.Delivers (dev : AtaDrive) (contents : Mem) : Prop :=
  ∀ n command data, dev n command = some data →
    ∀ i < command.count * 512, data i = contents (command.lba * 512 + i)

/-! ## The loop -/

/-- A command that was issued, with the bytes of its descriptor. -/
structure AtaChunk where
  command : AtaCommand
  bytes : Nat

/-- What `ata_read` returns and leaves in the buffer, and the commands it issued. -/
structure AtaRun where
  ret : Int
  buffer : Mem
  chunks : List AtaChunk

/-- One round up to the command. -/
def AtaChannel.issue (ch : AtaChannel) (drive trSize currentLba : Nat) : AtaChannel :=
  let ch := ch.setBytes (trSize * 512)
  { ch with taskFile := (commandWrites drive trSize currentLba).foldl TaskFile.outb ch.taskFile }

/-- The chunk of a round. -/
def AtaChannel.chunk (ch : AtaChannel) : AtaChunk := ⟨ch.taskFile.command, ch.bytes⟩

/-- The loop of `ata_read`, after a number of commands. -/
def ataDmaLoop (dev : AtaDrive) (drive lba : Nat) (ch : AtaChannel) (issued : Nat) (buffer : Mem)
    (blocksRead blocksRemaining : Nat) : AtaRun :=
  if blocksRemaining = 0 then ⟨toSsize blocksRead, buffer, []⟩
  else
    let trSize := min blocksRemaining blocksPerPrd
    let ch := ch.issue drive trSize (wrap64 (lba + blocksRead))
    match dev issued ch.taskFile.command with
    | none => ⟨toSsize blocksRead, buffer, [ch.chunk]⟩
    | some data =>
        let ch' := ch.transfer ch.taskFile.command data
        let start := blocksRead * 512
        let buffer := fun i =>
          if start ≤ i ∧ i < start + trSize * 512 then ch'.region (512 + (i - start))
          else buffer i
        let run := ataDmaLoop dev drive lba ch' (issued + 1) buffer (blocksRead + trSize)
          (blocksRemaining - trSize)
        { run with chunks := ch.chunk :: run.chunks }
termination_by blocksRemaining
decreasing_by
  have : 0 < blocksPerPrd := by decide
  omega

/-- `ata_read`. -/
def ataReadDma (dev : AtaDrive) (minor : Nat) (ch : AtaChannel) (buffer : Mem)
    (count lba : Nat) : AtaRun :=
  ataDmaLoop dev (minor % 2) lba ch 0 buffer 0 count

/-! ## One round -/

theorem toNat_ofNat_low (n : Nat) : (UInt8.ofNat (n &&& 0xff)).toNat = n % 2 ^ 8 := by
  have hmask : n &&& 0xff = n % 2 ^ 8 := Nat.and_two_pow_sub_one_eq_mod n 8
  rw [hmask, UInt8.toNat_ofNat', Nat.mod_mod]

/-- The command that a drive understands is the one that was meant. -/
theorem command_issue (ch : AtaChannel) {drive trSize currentLba : Nat} (hdrive : drive < 2)
    (hpos : 0 < trSize) (hsize : trSize < 2 ^ 16) (hlba : currentLba < 2 ^ 48) :
    (ch.issue drive trSize currentLba).taskFile.command = ⟨drive, trSize, currentLba⟩ := by
  have hselect : (UInt8.ofNat (0xe0 ||| drive <<< 4)).toNat / 16 % 2 = drive := by
    rcases (by omega : drive = 0 ∨ drive = 1) with rfl | rfl <;> rfl
  have hhigh : (UInt8.ofNat (trSize >>> 8)).toNat = trSize / 2 ^ 8 := by
    rw [UInt8.toNat_ofNat', Nat.shiftRight_eq_div_pow]
    omega
  simp only [AtaChannel.issue, commandWrites, List.foldl, TaskFile.outb, AtaLatch.write,
    TaskFile.command, toNat_ofNat_low, hselect, hhigh, AtaCommand.mk.injEq, true_and]
  constructor
  · rw [if_neg (by omega)]
    omega
  · omega

/-- A chunk is for the drive, and it fits the region. -/
structure AtaChunk.Fits (drive : Nat) (c : AtaChunk) : Prop where
  drive : c.command.drive = drive
  one_le : 1 ≤ c.command.count
  le : c.command.count ≤ blocksPerPrd
  bytes : c.bytes = c.command.count * 512
  bytes_pos : 0 < c.bytes
  region : 512 + c.bytes ≤ dmaRegionSize

/-- What a round issues. -/
theorem chunk_issue (ch : AtaChannel) {drive trSize currentLba : Nat} (hdrive : drive < 2)
    (hpos : 0 < trSize) (hsize : trSize ≤ blocksPerPrd) (hlba : currentLba < 2 ^ 48) :
    (ch.issue drive trSize currentLba).chunk = ⟨⟨drive, trSize, currentLba⟩, trSize * 512⟩ := by
  have hprd : blocksPerPrd = 127 := rfl
  have hbytes : trSize * 512 % 2 ^ 16 = trSize * 512 := Nat.mod_eq_of_lt (by omega)
  have hcommand := command_issue ch hdrive hpos (by omega) hlba
  exact congrArg₂ AtaChunk.mk hcommand hbytes

theorem chunk_fits {drive trSize currentLba : Nat} (hpos : 0 < trSize)
    (hsize : trSize ≤ blocksPerPrd) :
    AtaChunk.Fits drive ⟨⟨drive, trSize, currentLba⟩, trSize * 512⟩ := by
  have hprd : blocksPerPrd = 127 := rfl
  have hregion : dmaRegionSize = 65536 := rfl
  refine ⟨rfl, hpos, hsize, rfl, ?_, ?_⟩
  · show 0 < trSize * 512
    omega
  · show 512 + trSize * 512 ≤ dmaRegionSize
    omega

/-- What is copied to the buffer is what the drive delivered. -/
theorem transfer_region (ch : AtaChannel) {command : AtaCommand} (data : Mem)
    (hbytes : ch.bytes = command.count * 512) {i : Nat} (hi : i < command.count * 512) :
    (ch.transfer command data).region (512 + i) = data i := by
  have hprd : ch.prdSize = command.count * 512 := by
    rw [AtaChannel.prdSize, hbytes, if_neg (by omega)]
  simp only [AtaChannel.transfer, hprd, Nat.min_self]
  rw [if_pos ⟨by omega, by omega⟩, Nat.add_sub_cancel_left]

/-! ## The run -/

/-- The chunks follow each other from a block on. -/
def Consecutive : Nat → List AtaChunk → Prop
  | _, [] => True
  | lba, c :: cs => c.command.lba = lba ∧ Consecutive (lba + c.command.count) cs

/-- The blocks of the chunks. -/
def chunkBlocks (cs : List AtaChunk) : Nat := (cs.map fun c => c.command.count).sum

/-- The drive answered all of them, from the `n`-th command on. -/
def Answered (dev : AtaDrive) : Nat → List AtaChunk → Prop
  | _, [] => True
  | n, c :: cs => (dev n c.command).isSome ∧ Answered dev (n + 1) cs

/-- All chunks were answered and they are the whole request, or the last one failed and the
blocks are those of the ones before it. -/
def Completes (dev : AtaDrive) (n count : Nat) (cs : List AtaChunk) (r : Nat) : Prop :=
  Answered dev n cs ∧ r = count ∧ chunkBlocks cs = count ∨
    ∃ done failed, cs = done ++ [failed] ∧ Answered dev n done ∧
      dev (n + done.length) failed.command = none ∧ r = chunkBlocks done

theorem Completes.cons {dev : AtaDrive} {n count r : Nat} {cs : List AtaChunk} {c : AtaChunk}
    (hc : (dev n c.command).isSome) (h : Completes dev (n + 1) count cs r) :
    Completes dev n (c.command.count + count) (c :: cs) (c.command.count + r) := by
  rcases h with ⟨hall, rfl, hsum⟩ | ⟨done, failed, rfl, hall, hfailed, rfl⟩
  · exact .inl ⟨⟨hc, hall⟩, rfl, congrArg (c.command.count + ·) hsum⟩
  · refine .inr ⟨c :: done, failed, rfl, ⟨hc, hall⟩, ?_, rfl⟩
    rwa [List.length_cons, Nat.add_comm done.length, ← Nat.add_assoc]

/-- What the loop does after `blocksRead` blocks.  The chunks it issues cover what remains, from
its first block on, and the buffer holds the blocks that it says were read, and no more of
them. -/
structure AtaLoopReads (dev : AtaDrive) (contents buf : Mem) (drive lba issued blocksRead
    blocksRemaining : Nat) (run : AtaRun) : Prop where
  consecutive : Consecutive (lba + blocksRead) run.chunks
  within : chunkBlocks run.chunks ≤ blocksRemaining
  fits : ∀ c ∈ run.chunks, c.Fits drive
  reads : ∃ r : Nat, run.ret = (blocksRead + r : Nat) ∧
    Completes dev issued blocksRemaining run.chunks r ∧
    (∀ i < (blocksRead + r) * 512, run.buffer i = contents (lba * 512 + i)) ∧
    ∀ i ≥ (blocksRead + r) * 512, run.buffer i = buf i

theorem toSsize_of_lt {n : Nat} (h : n < 2 ^ 63) : toSsize n = n := if_pos h

section

variable {dev : AtaDrive} {contents buf : Mem} {drive lba issued blocksRead : Nat}

/-- Nothing remains. -/
theorem AtaLoopReads.done {buffer : Mem} (hlba : blocksRead < 2 ^ 63)
    (hread : ∀ i < blocksRead * 512, buffer i = contents (lba * 512 + i))
    (hrest : ∀ i ≥ blocksRead * 512, buffer i = buf i) :
    AtaLoopReads dev contents buf drive lba issued blocksRead 0 ⟨toSsize blocksRead, buffer, []⟩ :=
  ⟨trivial, Nat.le_refl 0, by simp, 0, toSsize_of_lt hlba, .inl ⟨trivial, rfl, rfl⟩, hread, hrest⟩

/-- The drive answers with an error. -/
theorem AtaLoopReads.failed {buffer : Mem} {blocksRemaining : Nat} {c : AtaChunk}
    (hlba : blocksRead < 2 ^ 63) (hfirst : c.command.lba = lba + blocksRead) (hfits : c.Fits drive)
    (hle : c.command.count ≤ blocksRemaining) (hnone : dev issued c.command = none)
    (hread : ∀ i < blocksRead * 512, buffer i = contents (lba * 512 + i))
    (hrest : ∀ i ≥ blocksRead * 512, buffer i = buf i) :
    AtaLoopReads dev contents buf drive lba issued blocksRead blocksRemaining
      ⟨toSsize blocksRead, buffer, [c]⟩ :=
  ⟨⟨hfirst, trivial⟩, hle, by simpa using hfits, 0, toSsize_of_lt hlba,
    .inr ⟨[], c, rfl, trivial, hnone, rfl⟩, hread, hrest⟩

/-- The drive answers with the blocks, and the loop goes on. -/
theorem AtaLoopReads.cons {blocksRemaining : Nat} {c : AtaChunk} {run : AtaRun}
    (hfirst : c.command.lba = lba + blocksRead) (hfits : c.Fits drive)
    (hsome : (dev issued c.command).isSome)
    (h : AtaLoopReads dev contents buf drive lba (issued + 1) (blocksRead + c.command.count)
      blocksRemaining run) :
    AtaLoopReads dev contents buf drive lba issued blocksRead (c.command.count + blocksRemaining)
      { run with chunks := c :: run.chunks } := by
  obtain ⟨hconsecutive, hwithin, hall, r, hret, hcompletes, hread, hrest⟩ := h
  rw [← Nat.add_assoc] at hconsecutive
  simp only [Nat.add_assoc blocksRead] at hret hread hrest
  exact ⟨⟨hfirst, hconsecutive⟩, Nat.add_le_add_left hwithin c.command.count,
    List.forall_mem_cons.mpr ⟨hfits, hall⟩, c.command.count + r, hret, hcompletes.cons hsome,
    hread, hrest⟩

/-- The chunk of a round, for a size that is not above what remains nor above what fits. -/
theorem round_chunk (ch : AtaChannel) {blocksRemaining : Nat} (hdrive : drive < 2)
    (hne : blocksRemaining ≠ 0) (hlba : lba + blocksRead + blocksRemaining ≤ 2 ^ 48) :
    ∃ n, min blocksRemaining blocksPerPrd = n ∧ 0 < n ∧ n ≤ blocksRemaining ∧
      n ≤ blocksPerPrd ∧ (ch.issue drive n (wrap64 (lba + blocksRead))).chunk =
        ⟨⟨drive, n, lba + blocksRead⟩, n * 512⟩ := by
  have hpos : 0 < min blocksRemaining blocksPerPrd :=
    Nat.lt_min.mpr ⟨Nat.pos_of_ne_zero hne, by decide⟩
  refine ⟨_, rfl, hpos, Nat.min_le_left _ _, Nat.min_le_right _ _, ?_⟩
  rw [wrap64_of_lt (by simp only [word]; omega)]
  exact chunk_issue ch hdrive hpos (Nat.min_le_right _ _) (by omega)

/-- The buffer with one more chunk. -/
theorem chunk_copied {buffer buffer' region : Mem} {pos start len : Nat}
    (hbuffer : ∀ i, buffer' i =
      if start ≤ i ∧ i < start + len then region (512 + (i - start)) else buffer i)
    (hregion : ∀ i < len, region (512 + i) = contents (pos + start + i))
    (hread : ∀ i < start, buffer i = contents (pos + i))
    (hrest : ∀ i ≥ start, buffer i = buf i) :
    (∀ i < start + len, buffer' i = contents (pos + i)) ∧
      ∀ i ≥ start + len, buffer' i = buf i := by
  refine ⟨fun i hi => ?_, fun i hi => ?_⟩
  · rw [hbuffer]
    by_cases hnew : start ≤ i
    · rw [if_pos ⟨hnew, hi⟩, hregion _ (by omega)]
      exact congrArg contents (by omega)
    · rw [if_neg (fun h => hnew h.1)]
      exact hread i (Nat.not_le.mp hnew)
  · rw [hbuffer, if_neg (by omega)]
    exact hrest i (by omega)

/-- The loop issues its chunks one behind the other, and reads what they deliver. -/
theorem ataDmaLoop_reads (hdev : dev.Delivers contents) (hdrive : drive < 2)
    (ch : AtaChannel) (buffer : Mem) {blocksRemaining : Nat}
    (hlba : lba + blocksRead + blocksRemaining ≤ 2 ^ 48)
    (hread : ∀ i < blocksRead * 512, buffer i = contents (lba * 512 + i))
    (hrest : ∀ i ≥ blocksRead * 512, buffer i = buf i) :
    AtaLoopReads dev contents buf drive lba issued blocksRead blocksRemaining
      (ataDmaLoop dev drive lba ch issued buffer blocksRead blocksRemaining) := by
  fun_induction ataDmaLoop dev drive lba ch issued buffer blocksRead blocksRemaining with
  | case1 ch issued buffer blocksRead => exact .done (by omega) hread hrest
  | case2 ch issued buffer blocksRead blocksRemaining hne trSize ch1 hnone =>
      obtain ⟨n, hn, hpos, hle, hsize, hchunk⟩ := round_chunk ch hdrive hne hlba
      obtain rfl : trSize = n := hn
      have hcommand := congrArg AtaChunk.command hchunk
      rw [hchunk]
      exact .failed (by omega) rfl (chunk_fits hpos hsize) hle (hcommand ▸ hnone) hread hrest
  | case3 ch issued buffer blocksRead blocksRemaining hne trSize ch1 data hsome ch' start buffer'
      run ih =>
      obtain ⟨n, hn, hpos, hle, hsize, hchunk⟩ := round_chunk ch hdrive hne hlba
      obtain rfl : trSize = n := hn
      have hcommand : ch1.taskFile.command = ⟨drive, trSize, lba + blocksRead⟩ :=
        congrArg AtaChunk.command hchunk
      have hbytes : ch1.bytes = trSize * 512 := congrArg AtaChunk.bytes hchunk
      rw [hcommand] at hsome
      have hregion : ∀ i < trSize * 512, ch'.region (512 + i) =
          contents (lba * 512 + start + i) := fun i hi => by
        rw [← Nat.add_mul]
        exact (transfer_region ch1 data (by rw [hbytes, hcommand]) (by rwa [hcommand])).trans
          (hdev issued ⟨drive, trSize, lba + blocksRead⟩ data hsome i hi)
      have hcopied : ∀ i, buffer' i =
        if start ≤ i ∧ i < start + trSize * 512 then ch'.region (512 + (i - start))
        else buffer i := fun _ => rfl
      have hbuffer := chunk_copied hcopied hregion hread hrest
      have hend : (blocksRead + trSize) * 512 = start + trSize * 512 := Nat.add_mul _ _ _
      have hrun : AtaLoopReads dev contents buf drive lba (issued + 1) (blocksRead + trSize)
          (blocksRemaining - trSize) run := by
        clear_value buffer' start trSize
        rw [← hend] at hbuffer
        exact ih (by omega) hbuffer.1 hbuffer.2
      rw [hchunk]
      have hcons := AtaLoopReads.cons (c := ⟨⟨drive, trSize, lba + blocksRead⟩, trSize * 512⟩)
        rfl (chunk_fits hpos hsize) (Option.isSome_of_mem hsome) hrun
      rwa [show trSize + (blocksRemaining - trSize) = blocksRemaining by omega] at hcons

/-- The loop does what the loop without registers does, where a drive answers by the block
number and the count alone. -/
theorem ataDmaLoop_eq {transfer : Nat → Nat → Option Mem}
    (hdev : ∀ n command, dev n command = transfer command.lba command.count)
    (hdrive : drive < 2) (ch : AtaChannel) (buffer : Mem) {blocksRemaining : Nat}
    (hlba : lba + blocksRead + blocksRemaining ≤ 2 ^ 48) :
    (ataDmaLoop dev drive lba ch issued buffer blocksRead blocksRemaining).ret =
        (ataReadLoop transfer lba buffer blocksRead blocksRemaining).ret ∧
      (ataDmaLoop dev drive lba ch issued buffer blocksRead blocksRemaining).buffer =
        (ataReadLoop transfer lba buffer blocksRead blocksRemaining).buffer := by
  fun_induction ataDmaLoop dev drive lba ch issued buffer blocksRead blocksRemaining with
  | case1 ch issued buffer blocksRead =>
      rw [ataReadLoop, if_pos rfl]
      exact ⟨rfl, rfl⟩
  | case2 ch issued buffer blocksRead blocksRemaining hne trSize ch1 hnone =>
      obtain ⟨n, hn, -, -, -, hchunk⟩ := round_chunk ch hdrive hne hlba
      obtain rfl : trSize = n := hn
      have hcommand : ch1.taskFile.command = ⟨drive, trSize, lba + blocksRead⟩ :=
        congrArg AtaChunk.command hchunk
      rw [hdev, hcommand] at hnone
      rw [ataReadLoop, if_neg hne, wrap64_of_lt (by simp only [word]; omega)]
      simp only [show transfer (lba + blocksRead) (min blocksRemaining blocksPerPrd) = none
        from hnone, and_self]
  | case3 ch issued buffer blocksRead blocksRemaining hne trSize ch1 data hsome ch' start buffer'
      run ih =>
      obtain ⟨n, hn, hpos, hle, hsize, hchunk⟩ := round_chunk ch hdrive hne hlba
      obtain rfl : trSize = n := hn
      have hcommand : ch1.taskFile.command = ⟨drive, trSize, lba + blocksRead⟩ :=
        congrArg AtaChunk.command hchunk
      have hbytes : ch1.bytes = trSize * 512 := congrArg AtaChunk.bytes hchunk
      have hregion : ∀ i < trSize * 512, ch'.region (512 + i) = data i := fun i hi =>
        transfer_region ch1 data (by rw [hbytes, hcommand]) (by rwa [hcommand])
      rw [hdev, hcommand] at hsome
      rw [ataReadLoop, if_neg hne, wrap64_of_lt (by simp only [word]; omega)]
      simp only [show transfer (lba + blocksRead) (min blocksRemaining blocksPerPrd) = some data
        from hsome]
      have hbuffer : buffer' = fun i =>
          if start ≤ i ∧ i < start + trSize * 512 then data (i - start) else buffer i := by
        funext i
        exact if_ctx_congr Iff.rfl (fun h => hregion (i - start) (by omega)) (fun _ => rfl)
      have hloop := congrArg (fun b => ataReadLoop transfer lba b (blocksRead + trSize)
        (blocksRemaining - trSize)) hbuffer
      have hrest := ih (by omega)
      rw [hloop] at hrest
      exact hrest

end

/-- What `ata_read` does.  The chunks it issues cover the request from its first block on,
each fits the DMA region, and the buffer holds the blocks that it says were read. -/
structure AtaReads (dev : AtaDrive) (contents buffer : Mem) (drive count lba : Nat)
    (run : AtaRun) : Prop where
  consecutive : Consecutive lba run.chunks
  within : chunkBlocks run.chunks ≤ count
  fits : ∀ c ∈ run.chunks, c.Fits drive
  reads : ∃ r : Nat, run.ret = r ∧ Completes dev 0 count run.chunks r ∧
    (∀ i < r * 512, run.buffer i = contents (lba * 512 + i)) ∧
    ∀ i ≥ r * 512, run.buffer i = buffer i

/-- **The commands of `ata_read`.**  For every request below block `2^48` and every drive that
answers each command with the blocks or with an error, the commands it understands cover the
request one behind the other, in chunks that fit the DMA region, and what is returned is the
number of the blocks in the buffer: all of them, or those before the chunk that failed. -/
theorem ata_read_chunks {dev : AtaDrive} {contents : Mem} (hdev : dev.Delivers contents)
    (minor : Nat) (ch : AtaChannel) (buffer : Mem) {count lba : Nat}
    (hlba : lba + count ≤ 2 ^ 48) :
    AtaReads dev contents buffer (minor % 2) count lba
      (ataReadDma dev minor ch buffer count lba) := by
  obtain ⟨hconsecutive, hwithin, hfits, r, hreads⟩ :=
    ataDmaLoop_reads hdev (Nat.mod_lt minor (by decide)) ch buffer
      (show lba + 0 + count ≤ 2 ^ 48 from hlba) (by simp) (fun _ _ => rfl)
  rw [Nat.zero_add] at hreads
  exact ⟨hconsecutive, hwithin, hfits, r, hreads⟩

/-- A hundred and thirty blocks, of a drive that fails the second command. -/
theorem ata_read_chunks_failed :
    AtaReads (fun n command => if n = 1 then none
        else some fun i => UInt8.ofNat (command.lba * 512 + i)) UInt8.ofNat (fun _ => 0) 1 130 7
      (ataReadDma (fun n command => if n = 1 then none
        else some fun i => UInt8.ofNat (command.lba * 512 + i)) 1
        ⟨⟨0, ⟨0, 0⟩, ⟨0, 0⟩, ⟨0, 0⟩, ⟨0, 0⟩⟩, 0, fun _ => 0⟩ (fun _ => 0) 130 7) :=
  ata_read_chunks (by
    intro n command data h i hi
    dsimp only at h
    split at h
    · cases h
    · cases h
      rfl) 1 _ _ (by decide)

end UlmerOS
