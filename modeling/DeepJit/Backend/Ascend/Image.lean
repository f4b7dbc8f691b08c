import DeepJit.Backend.Ascend.Arguments
import DeepJit.Backend.Builder

/-!
# The image of an AICPU kernel

How the bytes of a library come from the host's file into the anonymous file that the device opens:
`KernelImage` maps, reads and registers them, `AicpuBootstrap::load` names the mapping in a request,
and the `load` of the device loader writes what is mapped. Any call on the way may fail.
-/

namespace DeepJit.Ascend.Aicpu

/-! ### The host -/

structure AclError where
  code : Int
  /-- `aclGetRecentErrMsg`. -/
  message : Option Bytes

/-- What `check_acl` panics with. -/
def AclError.what (error : AclError) (expression : String) : Bytes :=
  bytes expression ++ bytes " failed with ACL error " ++ decimalInt error.code ++ bytes ": " ++
    error.message.getD (bytes "unknown")

/-- The file and the answers of the system to one `KernelImage`. -/
structure ImageAnswers where
  opens : Bool
  /-- `tellg`, which is -1 on a failure. -/
  size : Int
  pageSize : Int
  /-- The `strerror` of a failed `mmap`. -/
  mmapError : Option Bytes
  /-- The file when it is read. -/
  content : Bytes
  registerError : Option AclError
  devicePointer : Except AclError (BitVec 64)
  unregisters : Bool

/-- The members of `LoaderRequest` that a load sets. -/
structure LoadRequest where
  image : BitVec 64
  imageSize : BitVec 64
  symbol : Bytes

structure ImageState where
  /-- Whether the member `host` is set. -/
  host : Bool := false
  device : BitVec 64 := 0
  length : BitVec 64 := 0
  mappedLength : BitVec 64 := 0
  registered : Bool := false
  /-- The pages behind `host`. -/
  memory : Option Bytes := none
  /-- Whether the driver has the pages mapped. -/
  pinned : Bool := false
  /-- Whether pages were freed that the driver had mapped. -/
  freedPinned : Bool := false
  /-- The request that went to the device, with the memory at its image. -/
  executed : Option (LoadRequest × Option Bytes) := none

section

variable (answers : ImageAnswers)

/-- `munmap`. -/
def ImageState.munmap (s : ImageState) : ImageState :=
  { s with memory := none, freedPinned := s.freedPinned || s.pinned }

/-- `KernelImage::release`. -/
def release (s : ImageState) : ImageState :=
  if s.registered then
    if answers.unregisters then
      let s := { s with pinned := false }
      if s.host then s.munmap else s
    else s
  else if s.host then s.munmap else s

/-- The checks at the beginning of the constructor. -/
def checkImage (path : Bytes) : Except LaunchError Unit :=
  Except.mapError .thrown do
    hostAssert answers.opens "input.is_open()" (bytes "failed to open AICPU binary: " ++ path)
    hostAssert (0 < answers.size) "size > 0" (bytes "empty or unreadable AICPU binary: " ++ path)
    hostAssert (0 < answers.pageSize) "page_size > 0" (bytes "cannot determine Host page size")
    hostAssert (answers.size ≤ 18446744073709551615 - (answers.pageSize - 1) && answers.size ≤ 9223372036854775807)
      ("static_cast<uintmax_t>(size) <= std::numeric_limits<size_t>::max() - (page - 1) and " ++
        "static_cast<uintmax_t>(size) <= static_cast<uintmax_t>(std::numeric_limits<std::streamsize>::max())")
      (bytes "AICPU kernel image is too large: " ++ path)

def mapImage : Action LaunchError ImageState Unit := fun s =>
  match answers.mmapError with
  | some what => (.error (.thrown (bytes "mapping != MAP_FAILED: mmap AICPU image failed: " ++ what)), s)
  | none => (.ok (), { s with host := true, memory := some (List.replicate s.mappedLength.toNat 0) })

/-- The read into the mapping. It copies what there is, at most `length` bytes. -/
def readImage (path : Bytes) : Action LaunchError ImageState Unit := fun s =>
  let read := answers.content.take s.length.toNat
  match s.memory.bind fun memory => Buffer.writeAt memory 0 read with
  | none => (.error .outOfBounds, s)
  | some memory =>
      if read.length = s.length.toNat then (.ok (), { s with memory := some memory })
      else (.error (.thrown (bytes "input.read(static_cast<char*>(host), static_cast<std::streamsize>(length)): " ++
        bytes "failed to read AICPU binary: " ++ path)), { s with memory := some memory })

def registerImage : Action LaunchError ImageState Unit := fun s =>
  match answers.registerError with
  | some error => (.error (.thrown (error.what
      ("driver::lazy_aclrtHostRegisterV2(host, mapped_length, " ++
        "ACL_HOST_REG_MAPPED | ACL_HOST_REG_PINNED)"))), s)
  | none => (.ok (), { s with registered := true, pinned := true })

def devicePointer : Action LaunchError ImageState Unit := fun s =>
  match answers.devicePointer with
  | .error error =>
      (.error (.thrown (error.what "driver::lazy_aclrtHostGetDevicePointer(host, &device, 0)")), s)
  | .ok device => (.ok (), { s with device := device })

/-- The assignments to `length` and `mapped_length`. -/
def ImageState.measure (s : ImageState) : ImageState :=
  let length := BitVec.ofInt 64 answers.size
  let page := BitVec.ofInt 64 answers.pageSize
  { s with length := length, mappedLength := (length + page - 1) / page * page }

/-- The constructor of `KernelImage`. -/
def construct (path : Bytes) : Action LaunchError ImageState Unit := do
  Action.lift (checkImage answers path)
  Action.modify (ImageState.measure answers)
  Action.onError (do
    mapImage answers
    readImage answers path
    registerImage answers
    devicePointer answers) (release answers)

/-- The symbol in its array of 128 characters. -/
def copySymbol (symbol : Bytes) : Option Bytes := Buffer.writeAt (List.replicate 128 0) 0 (symbol ++ [0])

/-- `AicpuBootstrap::load`, with the answer of `execute` to its request. -/
def loadImage {α : Type} (execute : LoadRequest → Option Bytes → Except Bytes α) (path symbol : Bytes) :
    Action LaunchError ImageState α := do
  Action.lift (Except.mapError .thrown (hostAssert (symbol.length < 128) "symbol.size() < sizeof(request.symbol)"
    (bytes "AICPU entry name is too long")))
  construct answers path
  fun s =>
    match copySymbol symbol with
    | none => (.error .outOfBounds, release answers s)
    | some text =>
        let request : LoadRequest := ⟨s.device, s.length, text⟩
        ((execute request s.memory).mapError .thrown,
          release answers { s with executed := some (request, s.memory) })

end

/-! ### The device -/

inductive WriteAnswer where
  /-- At most as many bytes as were offered. -/
  | wrote (count : Nat)
  /-- `EINTR`. -/
  | interrupted
  | failed

/-- The loop of `load` on the device: the anonymous file behind it, unless `fuel` calls do not do. -/
def writeImage (image : Bytes) (answers : Nat → WriteAnswer) : Nat → Nat → Nat → Bytes → Option (Except Bytes Bytes)
  | 0, _, _, _ => none
  | fuel + 1, k, offset, file =>
      if offset < image.length then
        match answers k with
        | .interrupted => writeImage image answers fuel (k + 1) offset file
        | .failed => some (.error (bytes "writing AICPU image failed"))
        | .wrote count =>
            let written := min count (image.length - offset)
            if written = 0 then some (.error (bytes "writing AICPU image failed"))
            else writeImage image answers fuel (k + 1) (offset + written) (file ++ Buffer.slice image offset written)
      else some (.ok file)

section

variable {image file file' : Bytes} {answers : Nat → WriteAnswer} {fuel k offset : Nat}

theorem eq_of_writeImage (hoffset : offset ≤ image.length) (hfile : file = image.take offset)
    (h : writeImage image answers fuel k offset file = some (.ok file')) : file' = image := by
  induction fuel generalizing k offset file with
  | zero => simp [writeImage] at h
  | succ fuel ih =>
      rw [writeImage] at h
      split at h
      · rename_i hmore
        split at h
        · exact ih hoffset hfile h
        · simp at h
        · rename_i count _
          have hsplit : file ++ Buffer.slice image offset (min count (image.length - offset)) =
              image.take (offset + min count (image.length - offset)) := by
            rw [hfile, Buffer.slice, List.take_add]
          dsimp only at h
          split at h
          · simp at h
          · exact ih (by omega) hsplit h
      · rename_i hend
        rw [Option.some.injEq, Except.ok.injEq] at h
        rw [← h, hfile, List.take_of_length_le (by omega)]

/-- The loop ends if it is not interrupted for ever. -/
theorem writeImage_ends (hcalls : ∀ n, ∃ m, n ≤ m ∧ answers m ≠ .interrupted) (remaining : Nat) :
    ∀ k offset file, image.length - offset = remaining →
      ∃ fuel result, writeImage image answers fuel k offset file = some result := by
  induction remaining using Nat.strong_induction_on with
  | h remaining ih =>
      intro k offset file hremaining
      by_cases hmore : offset < image.length
      · have hcalled : ∀ k, answers k ≠ .interrupted →
            ∃ fuel result, writeImage image answers fuel k offset file = some result := by
          intro k hcall
          cases hanswer : answers k with
          | interrupted => exact absurd hanswer hcall
          | failed => exact ⟨1, _, by simp [writeImage, hmore, hanswer]; rfl⟩
          | wrote count =>
              by_cases hzero : min count (image.length - offset) = 0
              · exact ⟨1, _, by simp [writeImage, hmore, hanswer, hzero]; rfl⟩
              · obtain ⟨fuel, result, hresult⟩ := ih (image.length - (offset + min count (image.length - offset)))
                  (by omega) (k + 1) (offset + min count (image.length - offset))
                  (file ++ Buffer.slice image offset (min count (image.length - offset))) rfl
                refine ⟨fuel + 1, result, ?_⟩
                rw [writeImage, if_pos hmore, hanswer]
                exact (if_neg hzero).trans hresult
        obtain ⟨m, hm, hcall⟩ := hcalls k
        obtain ⟨d, rfl⟩ := Nat.exists_eq_add_of_le hm
        -- on the number of calls until one is not interrupted
        induction d generalizing k with
        | zero => exact hcalled k hcall
        | succ d ihd =>
            by_cases hinterrupted : answers k = .interrupted
            · obtain ⟨fuel, result, hresult⟩ := ihd (k + 1) (by omega) (by rwa [Nat.add_assoc, Nat.add_comm 1 d])
              exact ⟨fuel + 1, result, by rw [writeImage, if_pos hmore, hinterrupted]; exact hresult⟩
            · exact hcalled k hinterrupted
      · exact ⟨1, .ok file, by simp [writeImage, hmore]⟩

end

/-- However the device's writes are split up, and unless they are interrupted for ever, the loop ends:
with the whole image in the file, or with an error. -/
theorem image_written (image : Bytes) (answers : Nat → WriteAnswer)
    (hcalls : ∀ n, ∃ m, n ≤ m ∧ answers m ≠ .interrupted) :
    ∃ fuel result, writeImage image answers fuel 0 0 [] = some result ∧ ∀ file, result = .ok file → file = image := by
  obtain ⟨fuel, result, hresult⟩ := writeImage_ends hcalls _ 0 0 [] rfl
  refine ⟨fuel, result, hresult, fun file hfile => ?_⟩
  rw [hfile] at hresult
  exact eq_of_writeImage (Nat.zero_le _) (List.take_zero).symm hresult

/-- Every second call is interrupted, and the others write one byte. -/
def bytewise (n : Nat) : WriteAnswer := if n % 2 = 0 then .interrupted else .wrote 1

theorem image_written_bytewise : ∃ fuel result, writeImage [7, 8, 9] bytewise fuel 0 0 [] = some result ∧
    ∀ file, result = .ok file → file = [7, 8, 9] := by
  apply image_written
  intro n
  refine ⟨2 * n + 1, by omega, ?_⟩
  rw [bytewise, if_neg (by omega)]
  simp

/-! ### The mapping -/

/-- While the image is there: the members say what the system has. -/
structure Held (s : ImageState) : Prop where
  registered : s.pinned = s.registered
  host : s.memory.isSome = s.host
  pinned : s.pinned = true → s.host = true
  intact : s.freedPinned = false

/-- When the image is gone: its pages are free, unless the driver refused to give them up. -/
structure Gone (answers : ImageAnswers) (s : ImageState) : Prop where
  intact : s.freedPinned = false
  memory : s.memory = none ∨ answers.unregisters = false ∧ s.pinned = true

section

variable {answers : ImageAnswers} {s : ImageState} {path symbol : Bytes}

theorem Held.release (h : Held s) : Gone answers (release answers s) ∧ (release answers s).executed = s.executed := by
  have hhost := h.host
  unfold Aicpu.release ImageState.munmap
  by_cases hregistered : s.registered = true
  · have hpinned : s.pinned = true := h.registered.trans hregistered
    rw [if_pos hregistered]
    by_cases hunregisters : answers.unregisters = true
    · simp only [hunregisters, if_true, h.pinned hpinned]
      exact ⟨⟨by simp [h.intact], .inl rfl⟩, trivial⟩
    · simp only [hunregisters]
      exact ⟨⟨h.intact, .inr ⟨by simpa using hunregisters, hpinned⟩⟩, rfl⟩
  · have hpinned : s.pinned = false := by
      rw [h.registered]
      simpa using hregistered
    rw [if_neg hregistered]
    by_cases hmapped : s.host = true
    · simp only [hmapped, if_true]
      exact ⟨⟨by simp [h.intact, hpinned], .inl rfl⟩, trivial⟩
    · rw [if_neg hmapped]
      rw [Bool.not_eq_true] at hmapped
      rw [hmapped] at hhost
      exact ⟨⟨h.intact, .inl (by simpa using hhost)⟩, rfl⟩

/-- An image that was constructed: the file as it was read, and zeros up to the end of the page. -/
structure Constructed (answers : ImageAnswers) (s : ImageState) : Prop extends Held s where
  pin : s.pinned = true
  positive : 0 < answers.size
  length : s.length.toNat = answers.size.toNat
  complete : answers.size.toNat ≤ answers.content.length
  memory : s.memory = some (answers.content.take answers.size.toNat ++
    List.replicate (s.mappedLength.toNat - answers.size.toNat) 0)
  pages : IsLeast {n | answers.size.toNat ≤ n ∧ answers.pageSize.toNat ∣ n} s.mappedLength.toNat

/-- How a load ends that throws. -/
structure Failed (answers : ImageAnswers) (error : LaunchError) (s : ImageState) : Prop where
  inside : error ≠ .outOfBounds
  gone : Gone answers s

theorem toNat_ofInt {n : Int} (hn : 0 ≤ n) (hlt : n ≤ 18446744073709551615) : (BitVec.ofInt 64 n).toNat = n.toNat := by
  rw [BitVec.toNat_ofInt, Int.emod_eq_of_lt hn (by omega)]

/-- The arithmetic of `mapped_length` does not wrap below the checked bound. -/
theorem isLeast_mappedLength (length page : BitVec 64) (hpage : 0 < page.toNat)
    (hbound : length.toNat + (page.toNat - 1) < 18446744073709551616) :
    IsLeast {n | length.toNat ≤ n ∧ page.toNat ∣ n} ((length + page - 1) / page * page).toNat := by
  have hsum : (length + page - 1).toNat = length.toNat + (page.toNat - 1) := by
    have hone : (1 : BitVec 64).toNat = 1 := rfl
    rw [BitVec.toNat_sub, BitVec.toNat_add, hone]
    omega
  have hle := Nat.div_mul_le_self (length.toNat + (page.toNat - 1)) page.toNat
  have hmul : ((length + page - 1) / page * page).toNat =
      (length.toNat + (page.toNat - 1)) / page.toNat * page.toNat := by
    rw [BitVec.toNat_mul, BitVec.toNat_udiv, hsum]
    exact Nat.mod_eq_of_lt (by omega)
  rw [hmul]
  exact Rounding.isLeast_roundUp length.toNat hpage

theorem eq_ok_of_mapError {α ε δ : Type} {f : ε → δ} {result : Except ε α} {value : α}
    (h : result.mapError f = .ok value) : result = .ok value := by
  cases result with
  | error error => simp [Except.mapError] at h
  | ok value' => simpa [Except.mapError] using h

theorem ne_outOfBounds {α : Type} {result : Except Bytes α} {error : LaunchError}
    (h : result.mapError .thrown = .error error) : error ≠ .outOfBounds := by
  cases result with
  | error what =>
      simp only [Except.mapError, Except.error.injEq] at h
      simp [← h]
  | ok value => simp [Except.mapError] at h

theorem checkImage_ok (h : checkImage answers path = .ok ()) : 0 < answers.size ∧ 0 < answers.pageSize ∧
    answers.size ≤ 18446744073709551615 - (answers.pageSize - 1) ∧ answers.size ≤ 9223372036854775807 := by
  unfold checkImage at h
  have hchecks := eq_ok_of_mapError h
  simp only [hostAssert_bind, hostAssert_eq_ok, Bool.and_eq_true, decide_eq_true_eq] at hchecks
  exact hchecks.2

/-- The read stays inside the mapping. -/
theorem writeAt_mapping {read : Bytes} {mapped : Nat} (hread : read.length ≤ mapped) :
    Buffer.writeAt (List.replicate mapped 0) 0 read = some (read ++ List.replicate (mapped - read.length) 0) := by
  rw [Buffer.writeAt, if_pos (by simpa using hread)]
  simp

/-- The calls of the constructor, from the state with `length` and `mapped_length`. -/
theorem map_spec (hsize : 0 < answers.size) (hlength : s.length.toNat = answers.size.toNat)
    (hpages : IsLeast {n | answers.size.toNat ≤ n ∧ answers.pageSize.toNat ∣ n} s.mappedLength.toNat)
    (hheld : Held s) (hhost : s.host = false) :
    Post (fun _ t => Constructed answers t ∧ t.executed = s.executed)
      (fun error t => error ≠ .outOfBounds ∧ Held t ∧ t.executed = s.executed)
      ((do
        mapImage answers
        readImage answers path
        registerImage answers
        devicePointer answers : Action LaunchError ImageState Unit) s) := by
  have hpinned : s.pinned = false := by
    by_contra hpinned
    rw [hheld.pinned (by simpa using hpinned)] at hhost
    simp at hhost
  have hmapped : ∀ memory, Held { s with host := true, memory := some memory } := fun memory =>
    ⟨hheld.registered, rfl, fun _ => rfl, hheld.intact⟩
  refine Action.post_bind (Q := fun _ t => t = { s with
    host := true
    memory := some (List.replicate s.mappedLength.toNat 0) }) ?_ fun _ t ht => ?_
  · unfold mapImage
    cases answers.mmapError with
    | none => exact rfl
    | some what => exact ⟨by simp, hheld, rfl⟩
  subst ht
  have hread : (answers.content.take s.length.toNat).length ≤ s.mappedLength.toNat := by
    have hfits := hpages.1.1
    rw [List.length_take]
    omega
  refine Action.post_bind (Q := fun _ t => answers.size.toNat ≤ answers.content.length ∧ t = { s with
    host := true
    memory := some (answers.content.take answers.size.toNat ++
      List.replicate (s.mappedLength.toNat - answers.size.toNat) 0) }) ?_ fun _ t ht => ?_
  · unfold readImage
    simp only [Option.bind_some, writeAt_mapping hread]
    split
    · rename_i hcomplete
      rw [hlength, List.length_take] at hcomplete
      refine ⟨by omega, ?_⟩
      simp only [hlength, List.length_take]
      rw [Nat.min_eq_left (by omega)]
    · exact ⟨by simp, hmapped _, rfl⟩
  obtain ⟨hcomplete, rfl⟩ := ht
  refine Action.post_bind (Q := fun _ t => t = { s with
    host := true
    memory := some (answers.content.take answers.size.toNat ++
      List.replicate (s.mappedLength.toNat - answers.size.toNat) 0)
    registered := true
    pinned := true }) ?_ fun _ t ht => ?_
  · unfold registerImage
    cases answers.registerError with
    | none => exact rfl
    | some error => exact ⟨by simp, hmapped _, rfl⟩
  subst ht
  have hregistered : ∀ memory device, Held { s with
      host := true, memory := some memory, registered := true, pinned := true, device := device } :=
    fun memory device => ⟨rfl, rfl, fun _ => rfl, hheld.intact⟩
  unfold devicePointer
  cases answers.devicePointer with
  | error error => exact ⟨by simp, hregistered _ _, rfl⟩
  | ok device => exact ⟨⟨hregistered _ _, rfl, hsize, hlength, hcomplete, rfl, hpages⟩, rfl⟩

theorem construct_spec : Post (fun _ t => Constructed answers t ∧ t.executed = none)
    (fun error t => Failed answers error t ∧ t.executed = none) (construct answers path {}) := by
  unfold construct
  refine Action.post_bind (Q := fun _ t => checkImage answers path = .ok () ∧ t = {}) ?_ fun _ t ht => ?_
  · exact Action.post_lift (fun _ hcheck => ⟨hcheck, rfl⟩)
      fun error hcheck => ⟨⟨ne_outOfBounds hcheck, rfl, .inl rfl⟩, rfl⟩
  obtain ⟨hcheck, rfl⟩ := ht
  obtain ⟨hsize, hpage, hbound, hstream⟩ := checkImage_ok hcheck
  have hlength := toNat_ofInt (n := answers.size) (by omega) (by omega)
  have hpageSize := toNat_ofInt (n := answers.pageSize) (by omega) (by omega)
  have hpages := isLeast_mappedLength (BitVec.ofInt 64 answers.size) (BitVec.ofInt 64 answers.pageSize) (by omega)
    (by omega)
  rw [hlength, hpageSize] at hpages
  refine Action.post_bind (Q := fun _ t => t = ImageState.measure answers {}) rfl fun _ t ht => ?_
  subst ht
  apply Action.post_onError
  refine (map_spec hsize hlength hpages ⟨rfl, rfl, id, rfl⟩ rfl).imp (fun _ t ht => ht) fun error t ht => ?_
  obtain ⟨hne, hheld, hexecuted⟩ := ht
  obtain ⟨hgone, hsame⟩ := hheld.release
  exact ⟨⟨hne, hgone⟩, hsame.trans hexecuted⟩

/-- What goes to the device: the symbol, and pages that hold the file up to the image's size. -/
structure Sent (answers : ImageAnswers) (symbol : Bytes) (request : LoadRequest) (memory : Option Bytes) : Prop where
  fits : symbol.length < 128
  symbol : request.symbol = symbol ++ List.replicate (128 - symbol.length) 0
  complete : answers.size.toNat ≤ answers.content.length
  size : request.imageSize.toNat = answers.size.toNat
  pages : ∃ pages, memory = some pages ∧ answers.pageSize.toNat ∣ pages.length ∧
    pages.take request.imageSize.toNat = answers.content.take answers.size.toNat
  /-- However the device's writes are split up. -/
  file : ∀ pages writes fuel file, memory = some pages →
    writeImage (pages.take request.imageSize.toNat) writes fuel 0 0 [] = some (.ok file) →
    file = answers.content.take answers.size.toNat

theorem copySymbol_eq (h : symbol.length < 128) :
    copySymbol symbol = some (symbol ++ List.replicate (128 - symbol.length) 0) := by
  unfold copySymbol
  rw [writeAt_mapping (by simp; omega), List.append_assoc, List.length_append, List.length_singleton,
    ← List.replicate_one, ← List.replicate_add]
  congr 3
  omega

theorem Constructed.sent (h : Constructed answers s) (hsymbol : symbol.length < 128) :
    Sent answers symbol ⟨s.device, s.length, symbol ++ List.replicate (128 - symbol.length) 0⟩ s.memory := by
  have htake : (answers.content.take answers.size.toNat).length = answers.size.toNat := by
    rw [List.length_take, Nat.min_eq_left h.complete]
  have himage : ∀ pages, s.memory = some pages → pages.take s.length.toNat = answers.content.take answers.size.toNat := by
    intro pages hpages
    rw [h.memory, Option.some.injEq] at hpages
    rw [← hpages, h.length, List.take_append_of_le_length (Nat.le_of_eq htake.symm),
      List.take_of_length_le (Nat.le_of_eq htake)]
  refine ⟨hsymbol, rfl, h.complete, h.length, ⟨_, h.memory, ?_, himage _ h.memory⟩, ?_⟩
  · rw [List.length_append, List.length_replicate, htake, Nat.add_sub_of_le h.pages.1.1]
    exact h.pages.1.2
  · intro pages writes fuel file hpages hfile
    rw [← himage pages hpages]
    exact eq_of_writeImage (Nat.zero_le _) (List.take_zero).symm hfile

end

/-! ### The result -/

/-- `sizeof(LoaderResult)`. -/
def resultSize : BitVec 64 := 272

/-- The size of a cache line, from the register `ctr_el0`. -/
def cacheLine (ctr : BitVec 64) : BitVec 64 := (4 : BitVec 64) <<< ((ctr >>> 16) &&& 15)

/-- The loop of `publish`: the addresses that it cleans, unless `fuel` rounds do not do. -/
def cleanLines (line stop : BitVec 64) : Nat → BitVec 64 → Option (List (BitVec 64))
  | 0, _ => none
  | fuel + 1, address =>
      if address < stop then (cleanLines line stop fuel (address + line)).map (address :: ·) else some []

/-- The addresses that `publish` cleans for a result at `output`. -/
def publish (ctr output : BitVec 64) (fuel : Nat) : Option (List (BitVec 64)) :=
  cleanLines (cacheLine ctr) (output + resultSize) fuel (output &&& ~~~(cacheLine ctr - 1))

theorem toNat_cacheLine (ctr : BitVec 64) : ∃ k, 2 ≤ k ∧ k ≤ 17 ∧ (cacheLine ctr).toNat = 2 ^ k := by
  have hshift : ((ctr >>> 16) &&& 15).toNat ≤ 15 := by
    rw [BitVec.toNat_and]
    exact Nat.and_le_right
  refine ⟨((ctr >>> 16) &&& 15).toNat + 2, by omega, by omega, ?_⟩
  have hpow : 2 ^ (((ctr >>> 16) &&& 15).toNat + 2) ≤ 2 ^ 17 := Nat.pow_le_pow_right (by decide) (by omega)
  have hfour : (4 : BitVec 64).toNat = 2 ^ 2 := rfl
  unfold cacheLine
  rw [BitVec.shiftLeft_eq', BitVec.toNat_shiftLeft, hfour, Nat.shiftLeft_eq, ← Nat.pow_add, Nat.add_comm 2,
    Nat.mod_eq_of_lt (Nat.lt_of_le_of_lt hpow (by decide))]

/-- From an address on, the lines up to the end. -/
theorem cleanLines_spec {line stop : BitVec 64} (hline : 0 < line.toNat)
    (hwrap : stop.toNat + line.toNat ≤ 18446744073709551616) (rounds : Nat) :
    ∀ address : BitVec 64, stop.toNat ≤ address.toNat + rounds * line.toNat → ∃ lines,
      cleanLines line stop (rounds + 1) address = some lines ∧
      (∀ a, address.toNat ≤ a → a < stop.toNat → ∃ l ∈ lines, l.toNat ≤ a ∧ a < l.toNat + line.toNat) ∧
      ∀ l ∈ lines, l.toNat < stop.toNat ∧ address.toNat ≤ l.toNat ∧ line.toNat ∣ l.toNat - address.toNat := by
  induction rounds with
  | zero =>
      intro address hstop
      have hend : ¬address < stop := by
        rw [BitVec.lt_def]
        omega
      exact ⟨[], by rw [cleanLines, if_neg hend], fun a ha ha' => by omega, by simp⟩
  | succ rounds ih =>
      intro address hstop
      by_cases hmore : address < stop
      · have hlt := BitVec.lt_def.mp hmore
        have hnext : (address + line).toNat = address.toNat + line.toNat := by
          rw [BitVec.toNat_add]
          exact Nat.mod_eq_of_lt (by omega)
        obtain ⟨lines, hlines, hcover, hinside⟩ := ih (address + line) (by
          rw [hnext, Nat.add_assoc]
          rwa [Nat.add_mul, Nat.one_mul, Nat.add_comm (rounds * _)] at hstop)
        refine ⟨address :: lines, ?_, fun a ha ha' => ?_, fun l hl => ?_⟩
        · rw [cleanLines, if_pos hmore, hlines]
          rfl
        · by_cases hfirst : a < address.toNat + line.toNat
          · exact ⟨address, List.mem_cons_self, ha, hfirst⟩
          · obtain ⟨l, hl, hbounds⟩ := hcover a (by omega) ha'
            exact ⟨l, List.mem_cons_of_mem _ hl, hbounds⟩
        · rcases List.mem_cons.mp hl with rfl | hl
          · exact ⟨hlt, Nat.le_refl _, by simp⟩
          · obtain ⟨hstop', hbegin, hdvd⟩ := hinside l hl
            rw [hnext] at hbegin hdvd
            refine ⟨hstop', by omega, ?_⟩
            have hsplit : l.toNat - address.toNat = l.toNat - (address.toNat + line.toNat) + line.toNat := by omega
            rw [hsplit]
            exact Nat.dvd_add hdvd (Nat.dvd_refl _)
      · refine ⟨[], by rw [cleanLines, if_neg hmore], fun a ha ha' => ?_, by simp⟩
        rw [BitVec.lt_def] at hmore
        omega

/-- For every size of a cache line and every address of the result that keeps clear of the end of the
address space, the loop ends, every byte of the result is in a line that it cleans, and it cleans
only lines that hold a byte of the result. -/
theorem publish_cleans (ctr output : BitVec 64) (houtput : output.toNat + 272 + 131072 ≤ 18446744073709551616) :
    ∃ fuel lines, publish ctr output fuel = some lines ∧
      (∀ a, output.toNat ≤ a → a < output.toNat + 272 →
        ∃ l ∈ lines, l.toNat ≤ a ∧ a < l.toNat + (cacheLine ctr).toNat) ∧
      ∀ l ∈ lines, (cacheLine ctr).toNat ∣ l.toNat ∧ l.toNat < output.toNat + 272 ∧
        output.toNat < l.toNat + (cacheLine ctr).toNat := by
  obtain ⟨k, -, hk, hline⟩ := toNat_cacheLine ctr
  have hpos : 0 < (cacheLine ctr).toNat := hline ▸ Nat.two_pow_pos k
  have hle : (cacheLine ctr).toNat ≤ 131072 := by
    rw [hline]
    exact Nat.pow_le_pow_right (by decide) hk
  have hstop : (output + resultSize).toNat = output.toNat + 272 := by
    rw [BitVec.toNat_add, show resultSize.toNat = 272 from rfl]
    exact Nat.mod_eq_of_lt (by omega)
  have hbegin := Rounding.toNat_and_not_mask output (cacheLine ctr) hline
  rw [← hline] at hbegin
  have hdown := Nat.div_add_mod output.toNat (cacheLine ctr).toNat
  have hmod := Nat.mod_lt output.toNat hpos
  rw [Nat.mul_comm] at hdown
  obtain ⟨lines, hlines, hcover, hinside⟩ := @cleanLines_spec _ (output + resultSize) hpos (by omega)
    (output.toNat + 272) (output &&& ~~~(cacheLine ctr - 1)) (by
      have hrounds := Nat.le_mul_of_pos_right (output.toNat + 272) hpos
      omega)
  refine ⟨_, lines, hlines, fun a ha ha' => hcover a (by omega) (by omega), fun l hl => ?_⟩
  obtain ⟨hlt, hge, hdvd⟩ := hinside l hl
  refine ⟨?_, by omega, by omega⟩
  rw [← Nat.sub_add_cancel hge, hbegin]
  rw [hbegin] at hdvd
  exact Nat.dvd_add hdvd (Nat.dvd_mul_left _ _)

/-- Lines of 64 bytes, and a result that begins inside of one. -/
theorem publish_cleans_middle : ∃ fuel lines, publish 262144 4112 fuel = some lines ∧
    ∀ l ∈ lines, (cacheLine 262144).toNat ∣ l.toNat ∧ l.toNat < 4384 := by
  obtain ⟨fuel, lines, hlines, -, hinside⟩ := publish_cleans 262144 4112 (by decide)
  exact ⟨fuel, lines, hlines, fun l hl => ⟨(hinside l hl).1, (hinside l hl).2.1⟩⟩

end DeepJit.Ascend.Aicpu
