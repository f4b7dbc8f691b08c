import DeepJit.Basic
import DeepJit.Library.Buffer
import DeepJit.Library.Rounding

/-!
# Arguments of an Ascend launch

`Kernel::launch` packs its arguments into a buffer whose size a separate constant expression
computes. Both folds round the offset up to the alignment of an argument with a mask, in `size_t`
arithmetic. An AICPU launch prepends the header of a request to the loader on the device.
-/

namespace DeepJit.Ascend

abbrev Size := BitVec 64

/-- An argument of a type `T`: its bytes, which are `sizeof(T)` many, and `alignof(T)`. -/
structure Argument where
  bytes : Bytes
  alignment : Size
  bytes_ne : bytes ≠ []
  alignment_pow : ∃ k, alignment.toNat = 2 ^ k

namespace Argument

/-- `sizeof(T)`. -/
def size (arg : Argument) : Size := BitVec.ofNat 64 arg.bytes.length

/-- `kernel_arg_alignment<T>`. -/
def kernelArgAlignment (arg : Argument) : Size := if arg.alignment < 4 then 4 else arg.alignment

/-- `align_kernel_arg<T>`. -/
def alignKernelArg (arg : Argument) (offset : Size) : Size :=
  (offset + arg.kernelArgAlignment - 1) &&& ~~~(arg.kernelArgAlignment - 1)

end Argument

/-- The fold in the constant `parameter_size`. -/
def argumentsEnd (args : List Argument) (offset : Size) : Size :=
  args.foldl (fun offset arg => arg.alignKernelArg offset + arg.size) offset

/-- The constant `parameter_size`. -/
def parameterSize (args : List Argument) : Size :=
  let rounded := (argumentsEnd args 0 + 7) &&& ~~~7
  if 8 < rounded then rounded else 8

/-- The fold that copies the arguments, with the offsets that it uses. A copy outside the buffer is
undefined. -/
def packArguments : List Argument → Size → Bytes → Option (List Size × Bytes)
  | [], _, buffer => some ([], buffer)
  | arg :: args, offset, buffer =>
      let offset := arg.alignKernelArg offset
      match Buffer.writeAt buffer offset.toNat arg.bytes with
      | none => none
      | some buffer =>
          match packArguments args (offset + arg.size) buffer with
          | none => none
          | some (offsets, buffer) => some (offset :: offsets, buffer)

/-! ### Requests to the device loader -/

inductive Operation where
  | load
  | invoke
  | unload
  | removeBootstrap
deriving DecidableEq, Repr

/-- The value of the enumerator. -/
def Operation.code : Operation → BitVec 64
  | load => 0
  | invoke => 1
  | unload => 2
  | removeBootstrap => 3

/-- A `uint64_t` in memory, the low byte first. -/
def littleEndian (value : BitVec 64) : Bytes :=
  (List.range 8).map fun i => UInt8.ofNat (value.toNat / 256 ^ i)

/-- `RequestHeader`. -/
structure RequestHeader where
  operation : Operation
  module : BitVec 64

/-- The object representation of the header, which has no padding. -/
def RequestHeader.bytes (header : RequestHeader) : Bytes :=
  littleEndian header.operation.code ++ littleEndian header.module

theorem RequestHeader.length_bytes (header : RequestHeader) : header.bytes.length = 16 := rfl

/-! ### Launches -/

/-- The members of `Kernel` that a launch uses. -/
structure Kernel where
  aicpu : Bool := false
  aicpuModule : BitVec 64 := 0
  kernelHandle : Option Nat := none

structure LaunchOptions where
  stream : Option Nat := none
  numBlocks : Option Int := none
  numUbufBytes : Option Int := none
  numLaunchTimeoutSecs : Option Int := none

inductive LaunchAttribute where
  | dynUbufSize (size : BitVec 32)
  | timeout (secs : BitVec 16)
deriving DecidableEq, Repr

/-- The arguments of `aclrtLaunchKernelWithHostArgs`. -/
structure LaunchCall where
  handle : Nat
  numBlocks : Int
  stream : Nat
  attributes : List LaunchAttribute
  hostArgs : Bytes

inductive LaunchError where
  | thrown (what : Bytes)
  /-- A copy outside its destination. -/
  | outOfBounds
deriving DecidableEq, Repr

namespace Kernel

/-- The host arguments of a launch: the buffer, or the packet with the request header in front. -/
def hostArgs (kernel : Kernel) (args : List Argument) : Option (List Size × Bytes) :=
  match packArguments args 0 (List.replicate (parameterSize args).toNat 0) with
  | none => none
  | some (offsets, buffer) =>
      if kernel.aicpu then
        let header : RequestHeader := { operation := .invoke, module := kernel.aicpuModule }
        match Buffer.writeAll [(0, header.bytes), (16, buffer)]
          (List.replicate (16 + parameterSize args).toNat 0) with
        | none => none
        | some packet => some (offsets, packet)
      else some (offsets, buffer)

/-- The checks of `launch`, in order. -/
def checkLaunch (kernel : Kernel) (options : LaunchOptions) : Except Bytes Unit :=
  if kernel.kernelHandle = none then .error (bytes "kernel must be loaded before launch")
  else if !kernel.aicpu && !options.numBlocks.any (0 < ·) then
    .error (bytes "Ascend block count must be positive")
  else if !kernel.aicpu && !options.numUbufBytes.any (0 ≤ ·) then
    .error (bytes "Ascend dynamic UB size must not be negative")
  else if !options.numLaunchTimeoutSecs.any (fun secs => 0 ≤ secs && secs ≤ 65535) then
    .error (bytes "Ascend launch timeout is out of range")
  else .ok ()

def launchAttributes (kernel : Kernel) (options : LaunchOptions) : List LaunchAttribute :=
  let ubuf := options.numUbufBytes.getD 0
  let secs := options.numLaunchTimeoutSecs.getD 0
  (if !kernel.aicpu && 0 < ubuf then [.dynUbufSize (BitVec.ofInt 32 ubuf)] else []) ++
    if 0 < secs then [.timeout (BitVec.ofInt 16 secs)] else []

/-- `Kernel::launch`, up to the call of the driver. -/
def launch (kernel : Kernel) (currentStream : Nat) (options : LaunchOptions) (args : List Argument) :
    Except LaunchError LaunchCall :=
  match kernel.checkLaunch options with
  | .error what => .error (.thrown what)
  | .ok _ =>
      match kernel.hostArgs args with
      | none => .error .outOfBounds
      | some (_, hostArgs) =>
          .ok { handle := kernel.kernelHandle.getD 0
                numBlocks := if kernel.aicpu then 1 else options.numBlocks.getD 0
                stream := options.stream.getD currentStream
                attributes := kernel.launchAttributes options
                hostArgs := hostArgs }

end Kernel

/-! ### Offsets -/

/-- No sum of the fold reaches `2 ^ 64`. -/
def NoWrap : List Argument → Size → Prop
  | [], offset => offset.toNat + 7 < 2 ^ 64
  | arg :: args, offset =>
      offset.toNat + arg.kernelArgAlignment.toNat < 2 ^ 64 ∧
      (arg.alignKernelArg offset).toNat + arg.bytes.length < 2 ^ 64 ∧
      NoWrap args (arg.alignKernelArg offset + arg.size)

/-- Every offset is the least multiple of the alignment, and of four, that is not below the end of
the argument before it. The last argument ends at `last`. -/
inductive LeastOffsets : Nat → List Argument → List Nat → Nat → Prop
  | nil (start : Nat) : LeastOffsets start [] [] start
  | cons {start offset last : Nat} {arg : Argument} {args : List Argument} {offsets : List Nat}
      (hoffset : IsLeast {m | start ≤ m ∧ max 4 arg.alignment.toNat ∣ m} offset)
      (hrest : LeastOffsets (offset + arg.bytes.length) args offsets last) :
      LeastOffsets start (arg :: args) (offset :: offsets) last

/-- The arguments at their offsets. -/
def placed (args : List Argument) (offsets : List Nat) : List (Nat × Bytes) :=
  offsets.zip (args.map Argument.bytes)

theorem Argument.toNat_kernelArgAlignment (arg : Argument) :
    arg.kernelArgAlignment.toNat = max 4 arg.alignment.toNat := by
  have hfour : (4 : Size).toNat = 4 := rfl
  rw [kernelArgAlignment]
  by_cases hlow : arg.alignment < 4
  · have hlt : arg.alignment.toNat < 4 := hlow
    rw [if_pos hlow, hfour]
    omega
  · have hle : ¬arg.alignment.toNat < 4 := hlow
    rw [if_neg hlow]
    omega

theorem Argument.kernelArgAlignment_pow (arg : Argument) : ∃ k, arg.kernelArgAlignment.toNat = 2 ^ k := by
  rw [kernelArgAlignment]
  by_cases hlow : arg.alignment < 4
  · rw [if_pos hlow]
    exact ⟨2, rfl⟩
  · rw [if_neg hlow]
    exact arg.alignment_pow

theorem Argument.isLeast_alignKernelArg (arg : Argument) {offset : Size}
    (h : offset.toNat + arg.kernelArgAlignment.toNat < 2 ^ 64) :
    IsLeast {m | offset.toNat ≤ m ∧ max 4 arg.alignment.toNat ∣ m} (arg.alignKernelArg offset).toNat := by
  obtain ⟨k, hk⟩ := arg.kernelArgAlignment_pow
  rw [← arg.toNat_kernelArgAlignment]
  exact Rounding.isLeast_maskUp offset arg.kernelArgAlignment hk (Nat.le_of_lt h)

theorem Argument.toNat_add_size (arg : Argument) {offset : Size}
    (h : offset.toNat + arg.bytes.length < 2 ^ 64) :
    (offset + arg.size).toNat = offset.toNat + arg.bytes.length := by
  have hsize : arg.size.toNat = arg.bytes.length := by
    rw [size, BitVec.toNat_ofNat]
    exact Nat.mod_eq_of_lt (by omega)
  rw [BitVec.toNat_add, hsize]
  exact Nat.mod_eq_of_lt h

/-- Both folds use the same offsets. -/
theorem packArguments_eq (args : List Argument) (offset : Size) (h : NoWrap args offset) :
    ∃ offsets last, LeastOffsets offset.toNat args (offsets.map BitVec.toNat) last ∧
      (argumentsEnd args offset).toNat = last ∧
      last + 7 < 2 ^ 64 ∧
      ∀ buffer, packArguments args offset buffer =
        (Buffer.writeAll (placed args (offsets.map BitVec.toNat)) buffer).map fun buffer => (offsets, buffer) := by
  induction args generalizing offset with
  | nil => exact ⟨[], offset.toNat, .nil _, rfl, h, fun _ => rfl⟩
  | cons arg args ih =>
      obtain ⟨halign, hsum, hrest⟩ := h
      have hnext := arg.toNat_add_size hsum
      obtain ⟨offsets, last, hleast, hfold, hlast, hpack⟩ := ih _ hrest
      rw [hnext] at hleast
      refine ⟨arg.alignKernelArg offset :: offsets, last, .cons (arg.isLeast_alignKernelArg halign) hleast, hfold,
        hlast, fun buffer => ?_⟩
      rw [packArguments, placed, List.map_cons, List.map_cons, List.zip_cons_cons, Buffer.writeAll]
      cases Buffer.writeAt buffer (arg.alignKernelArg offset).toNat arg.bytes with
      | none => rfl
      | some first =>
          simp only [hpack]
          rw [← placed]
          cases Buffer.writeAll (placed args (offsets.map BitVec.toNat)) first <;> rfl

/-- The ranges of the arguments follow one another between the start and the end. -/
theorem LeastOffsets.placed_order {start last : Nat} {args : List Argument} {offsets : List Nat}
    (h : LeastOffsets start args offsets last) :
    start ≤ last ∧
      (∀ write ∈ placed args offsets, start ≤ write.1 ∧ write.1 + write.2.length ≤ last) ∧
      (placed args offsets).Pairwise fun earlier later => earlier.1 + earlier.2.length ≤ later.1 := by
  induction h with
  | nil start => exact ⟨Nat.le_refl _, by simp [placed], List.Pairwise.nil⟩
  | @cons start offset last arg args offsets hoffset _ ih =>
      obtain ⟨hle, hinside, horder⟩ := ih
      have hstart : start ≤ offset := hoffset.1.1
      rw [placed, List.map_cons, List.zip_cons_cons]
      refine ⟨by omega, ?_, ?_⟩
      · intro write hwrite
        rcases List.mem_cons.mp hwrite with heq | hmem
        · rw [heq]
          exact ⟨hstart, hle⟩
        · have hlater := hinside write hmem
          omega
      · rw [List.pairwise_cons]
        exact ⟨fun later hlater => (hinside later hlater).1, horder⟩

theorem isLeast_parameterSize (args : List Argument) {last : Nat}
    (hfold : (argumentsEnd args 0).toNat = last) (hlast : last + 7 < 2 ^ 64) :
    IsLeast {m | 8 ∣ m ∧ 8 ≤ m ∧ last ≤ m} (parameterSize args).toNat := by
  have height : (8 : Size).toNat = 8 := rfl
  have hsum : (argumentsEnd args 0).toNat + (8 : Size).toNat ≤ 2 ^ 64 := by omega
  have hrounded := Rounding.isLeast_maskUp (argumentsEnd args 0) 8 (k := 3) rfl hsum
  have hmask : Rounding.maskUp (argumentsEnd args 0) 8 = (argumentsEnd args 0 + 7) &&& ~~~7 := by
    have hadd : argumentsEnd args 0 + 8 - 1 = argumentsEnd args 0 + 7 := by bv_omega
    rw [Rounding.maskUp, hadd]
    rfl
  rw [hmask, hfold, height] at hrounded
  obtain ⟨⟨hle, hdvd⟩, hleast⟩ := hrounded
  rw [parameterSize]
  by_cases hbig : 8 < (argumentsEnd args 0 + 7) &&& ~~~7
  · have hlt : 8 < ((argumentsEnd args 0 + 7) &&& ~~~7).toNat := hbig
    rw [if_pos hbig]
    exact ⟨⟨hdvd, by omega, hle⟩, fun m hm => hleast ⟨hm.2.2, hm.1⟩⟩
  · have hsmall : ¬8 < ((argumentsEnd args 0 + 7) &&& ~~~7).toNat := hbig
    rw [if_neg hbig, height]
    exact ⟨⟨Nat.dvd_refl 8, Nat.le_refl 8, by omega⟩, fun m hm => hm.2.1⟩

/-! ### Packets -/

/-- The packet is the header with the buffer behind it. -/
theorem writeAll_packet (header buffer : Bytes) :
    Buffer.writeAll [(0, header), (header.length, buffer)] (List.replicate (header.length + buffer.length) 0) =
      some (header ++ buffer) := by
  simp [Buffer.writeAll, Buffer.writeAt]

/-- The header in front of the buffer. -/
def Kernel.argsHeader (kernel : Kernel) : Bytes :=
  if kernel.aicpu then RequestHeader.bytes { operation := .invoke, module := kernel.aicpuModule } else []

theorem hostArgs_eq (kernel : Kernel) (args : List Argument) {offsets : List Size} {buffer : Bytes}
    (hpack : packArguments args 0 (List.replicate (parameterSize args).toNat 0) = some (offsets, buffer))
    (hlength : buffer.length = (parameterSize args).toNat)
    (hpacket : kernel.aicpu = true → 16 + (parameterSize args).toNat < 2 ^ 64) :
    kernel.hostArgs args = some (offsets, kernel.argsHeader ++ buffer) := by
  rw [Kernel.hostArgs, hpack, Kernel.argsHeader]
  cases haicpu : kernel.aicpu with
  | false => rfl
  | true =>
      have hsize : (16 + parameterSize args).toNat = 16 + buffer.length := by
        have hsixteen : (16 : Size).toNat = 16 := rfl
        rw [BitVec.toNat_add, hsixteen, hlength]
        exact Nat.mod_eq_of_lt (hpacket haicpu)
      have hwrite := writeAll_packet (RequestHeader.bytes { operation := .invoke, module := kernel.aicpuModule }) buffer
      rw [RequestHeader.length_bytes] at hwrite
      simp only [if_true, hsize, hwrite]

/-- The arguments of a launch, when no sum reaches `2 ^ 64`: each offset is the least aligned one
behind the argument before it, the ranges follow one another inside the constant `parameter_size`,
which is the least multiple of eight that has room, and every byte that reaches the driver behind
the header is the byte of its argument or zero. -/
theorem launch_packs_arguments (kernel : Kernel) (args : List Argument) (hargs : NoWrap args 0)
    (hpacket : kernel.aicpu = true → 16 + (parameterSize args).toNat < 2 ^ 64) :
    ∃ offsets last buffer,
      kernel.hostArgs args = some (offsets, kernel.argsHeader ++ buffer) ∧
      kernel.argsHeader.length = (if kernel.aicpu then 16 else 0) ∧
      buffer.length = (parameterSize args).toNat ∧
      LeastOffsets 0 args (offsets.map BitVec.toNat) last ∧
      (placed args (offsets.map BitVec.toNat)).Pairwise
        (fun earlier later => earlier.1 + earlier.2.length ≤ later.1) ∧
      (∀ arg ∈ placed args (offsets.map BitVec.toNat),
        arg.1 + arg.2.length ≤ (parameterSize args).toNat ∧
        Buffer.slice (kernel.argsHeader ++ buffer) (kernel.argsHeader.length + arg.1) arg.2.length = arg.2) ∧
      (∀ i < (parameterSize args).toNat,
        (∀ arg ∈ placed args (offsets.map BitVec.toNat), ¬Buffer.Covers arg i) →
        (kernel.argsHeader ++ buffer)[kernel.argsHeader.length + i]? = some 0) ∧
      IsLeast {m | 8 ∣ m ∧ 8 ≤ m ∧ last ≤ m} (parameterSize args).toNat ∧
      ∀ currentStream options call, kernel.launch currentStream options args = .ok call →
        call.hostArgs = kernel.argsHeader ++ buffer := by
  obtain ⟨offsets, last, hleast, hfold, hlast, hpack⟩ := packArguments_eq args 0 hargs
  obtain ⟨-, hinside, horder⟩ := hleast.placed_order
  have hsize := isLeast_parameterSize args hfold hlast
  have hroom : ∀ arg ∈ placed args (offsets.map BitVec.toNat), arg.1 + arg.2.length ≤ (parameterSize args).toNat := by
    intro arg harg
    have hend := (hinside arg harg).2
    have hcovers := hsize.1.2.2
    omega
  obtain ⟨buffer, hwrite, hlength, hread, hkeep⟩ := Buffer.writeAll_spec
    (placed args (offsets.map BitVec.toNat)) (List.replicate (parameterSize args).toNat (0 : UInt8)) horder
    fun arg harg => by simpa using hroom arg harg
  rw [List.length_replicate] at hlength
  have hpacked : packArguments args 0 (List.replicate (parameterSize args).toNat 0) = some (offsets, buffer) := by
    rw [hpack, hwrite]
    rfl
  have hhost := hostArgs_eq kernel args hpacked hlength hpacket
  refine ⟨offsets, last, buffer, hhost, ?_, hlength, hleast, horder, ?_, ?_, hsize, ?_⟩
  · rw [Kernel.argsHeader]
    cases kernel.aicpu <;> rfl
  · intro arg harg
    refine ⟨hroom arg harg, ?_⟩
    rw [Buffer.slice_append_right]
    exact hread arg harg
  · intro i hi hfree
    rw [List.getElem?_append_right (Nat.le_add_right _ _), Nat.add_sub_cancel_left, hkeep i hfree,
      List.getElem?_replicate, if_pos hi]
  · intro currentStream options call hcall
    rw [Kernel.launch] at hcall
    cases hcheck : kernel.checkLaunch options with
    | error what => simp [hcheck] at hcall
    | ok _ =>
        simp only [hcheck, hhost, Except.ok.injEq] at hcall
        rw [← hcall]

/-- A byte and a double. -/
def Argument.byteThenDouble : List Argument :=
  [⟨[249], 1, by decide, ⟨0, rfl⟩⟩, ⟨[0, 0, 0, 0, 0, 0, 208, 63], 8, by decide, ⟨3, rfl⟩⟩]

theorem launch_packs_byteThenDouble :
    NoWrap Argument.byteThenDouble 0 ∧ 16 + (parameterSize Argument.byteThenDouble).toNat < 2 ^ 64 ∧
    ∃ (offsets : List Size) (last : Nat),
      LeastOffsets 0 Argument.byteThenDouble (offsets.map BitVec.toNat) last ∧
      IsLeast {m | 8 ∣ m ∧ 8 ≤ m ∧ last ≤ m} (parameterSize Argument.byteThenDouble).toNat := by
  have hargs : NoWrap Argument.byteThenDouble 0 := by
    refine ⟨by decide, by decide, by decide, by decide, ?_⟩
    rw [NoWrap]
    decide
  have hpacket : 16 + (parameterSize Argument.byteThenDouble).toNat < 2 ^ 64 := by decide
  obtain ⟨offsets, last, buffer, -, -, -, hleast, -, -, -, hsize, -⟩ :=
    launch_packs_arguments { aicpu := true, aicpuModule := 1, kernelHandle := some 0 } Argument.byteThenDouble hargs
      fun _ => hpacket
  exact ⟨hargs, hpacket, offsets, last, hleast, hsize⟩

end DeepJit.Ascend
