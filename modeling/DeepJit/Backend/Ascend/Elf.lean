import DeepJit.Basic
import DeepJit.Library.Checked

/-!
# Kernel names of an ELF file

`Kernel::parse_kernel_names` as the source computes it: the section table, then for an AArch64
shared object the exported pairs of function symbols, and for any other file the section names below
`.ascend.meta.`. Every access to the file or to a section of the table, and every sum, difference
and product of sizes, is a checked one.
-/

namespace DeepJit.Ascend

open Checked (Result)

/-- A `std::string`, whose size is a `size_t`. -/
structure Data where
  bytes : Bytes
  length_lt : bytes.length < 2 ^ 64

/-- `data.size()`. -/
def Data.size (data : Data) : BitVec 64 := BitVec.ofNat 64 data.bytes.length

/-! ### The records of an ELF file -/

/-- A little-endian number. -/
def littleEndianValue : Bytes → Nat
  | [] => 0
  | byte :: rest => byte.toNat + 256 * littleEndianValue rest

/-- The field of `w` bits at an offset of a record. -/
def field (w : Nat) (record : Bytes) (offset : Nat) : BitVec w :=
  BitVec.ofNat w (littleEndianValue (Buffer.slice record offset (w / 8)))

/-- The members of `Elf64_Ehdr` that are read. -/
structure Ehdr where
  ident : Bytes
  type : BitVec 16
  machine : BitVec 16
  shoff : BitVec 64
  shentsize : BitVec 16
  shnum : BitVec 16
  shstrndx : BitVec 16

def Ehdr.size : Nat := 64

def Ehdr.decode (record : Bytes) : Ehdr where
  ident := Buffer.slice record 0 16
  type := field 16 record 16
  machine := field 16 record 18
  shoff := field 64 record 40
  shentsize := field 16 record 58
  shnum := field 16 record 60
  shstrndx := field 16 record 62

/-- The members of `Elf64_Shdr` that are read. -/
structure Shdr where
  name : BitVec 32
  type : BitVec 32
  offset : BitVec 64
  size : BitVec 64
  link : BitVec 32
  entsize : BitVec 64

def Shdr.decode (record : Bytes) : Shdr where
  name := field 32 record 0
  type := field 32 record 4
  offset := field 64 record 24
  size := field 64 record 32
  link := field 32 record 40
  entsize := field 64 record 56

/-- The members of `Elf64_Sym` that are read. -/
structure Sym where
  name : BitVec 32
  info : BitVec 8
  other : BitVec 8
  shndx : BitVec 16

def Sym.decode (record : Bytes) : Sym where
  name := field 32 record 0
  info := field 8 record 4
  other := field 8 record 5
  shndx := field 16 record 6

/-- `ELFMAG`. -/
def elfMagic : Bytes := [127, 69, 76, 70]

/-- `ET_DYN` and `EM_AARCH64`. -/
def Ehdr.isAicpu (header : Ehdr) : Bool := header.type == 3 && header.machine == 183

/-- `SHT_DYNSYM`. -/
def Shdr.isDynsym (item : Shdr) : Bool := item.type == 11

/-- `SHT_STRTAB`. -/
def Shdr.isStrtab (item : Shdr) : Bool := item.type == 3

/-- A function symbol that is global, has default visibility and is defined. -/
def Sym.isExported (symbol : Sym) : Bool :=
  symbol.info &&& 0xf == 2 && symbol.info >>> 4 == 1 && symbol.other &&& 0x3 == 0 && symbol.shndx != 0

/-! ### String views -/

/-- `view.find('\0', pos)`. -/
def findNul (view : Bytes) (pos : Nat) : Option Nat :=
  ((view.drop pos).findIdx? (· == 0)).map (pos + ·)

/-- The text of the view from `pos` up to the zero byte at `stop`. -/
def textUpTo (view : Bytes) (pos : BitVec 32) (stop : Nat) : Result Bytes Bytes := do
  let length ← Checked.sub (BitVec.ofNat 64 stop) (pos.setWidth 64)
  Checked.read view (pos.setWidth 64) length

/-- `name.substr(0, name.size() - suffix.size())` if the name ends with the suffix. -/
def dropSuffix (suffix name : Bytes) : Option Bytes :=
  if suffix <:+ name then some (name.take (name.length - suffix.length)) else none

/-! ### AICPU binaries -/

/-- The loop over the symbols of a table. `symbols` is the set that the names go to, in order. -/
def symbolLoop (data : Data) (table : Shdr) (names : Bytes) :
    Nat → BitVec 64 → List Bytes → Result Bytes (List Bytes)
  | fuel, offset, symbols =>
      if offset < table.size then
        match fuel with
        | 0 => .error .diverged
        | fuel + 1 => do
            let position ← Checked.add table.offset offset
            let record ← Checked.read data.bytes position 24
            let symbol := Sym.decode record
            let next ← Checked.add offset 24
            if !symbol.isExported then symbolLoop data table names fuel next symbols
            else do
              Checked.require (decide (symbol.name.toNat < names.length)) (bytes "invalid AICPU ELF symbol name")
              match findNul names symbol.name.toNat with
              | none => Checked.throw (bytes "unterminated AICPU ELF symbol name")
              | some stop => do
                  let name ← textUpTo names symbol.name stop
                  symbolLoop data table names fuel next
                    (if symbols.contains name then symbols else symbols.orderedInsert (· ≤ ·) name)
      else .ok symbols

/-- The loop over the sections. -/
def collectSymbols (data : Data) (sections : List Shdr) :
    List Shdr → List Bytes → Result Bytes (List Bytes)
  | [], symbols => .ok symbols
  | table :: rest, symbols =>
      if !table.isDynsym then collectSymbols data sections rest symbols
      else do
        Checked.require
          (table.entsize == 24 && table.size.toNat % 24 == 0 && decide (table.link.toNat < sections.length))
          (bytes "invalid AICPU ELF symbol table")
        let strings ← Checked.index sections table.link
        Checked.require strings.isStrtab (bytes "invalid AICPU ELF string table")
        Checked.requireRange data.size table.offset table.size (bytes "truncated AICPU ELF")
        Checked.requireRange data.size strings.offset strings.size (bytes "truncated AICPU ELF")
        let names ← Checked.read data.bytes strings.offset strings.size
        let symbols ← symbolLoop data table names (table.size.toNat / 24) 0 symbols
        collectSymbols data sections rest symbols

def interfaceSuffix : Bytes := bytes "_interface"

/-- The pair that a symbol closes. -/
def interfacePair (symbols : List Bytes) (symbol : Bytes) : Option Bytes :=
  match dropSuffix interfaceSuffix symbol with
  | none => none
  | some name => if symbols.contains name then some name else none

/-- The names that are in the set together with their interface. -/
def interfacePairs (symbols : List Bytes) : List Bytes := symbols.filterMap (interfacePair symbols)

/-! ### AICore binaries -/

def metaPrefix : Bytes := bytes ".ascend.meta."

/-- The loop over the two suffixes, of which at most one is removed. -/
def dropMixSuffix (name : Bytes) : Bytes :=
  match dropSuffix (bytes "_mix_aic") name with
  | some kernel => kernel
  | none =>
      match dropSuffix (bytes "_mix_aiv") name with
      | some kernel => kernel
      | none => name

/-- The loop over the sections: the kernels that their names stand for. -/
def sectionKernels (strings : Bytes) : List Shdr → Result Bytes (List Bytes)
  | [] => .ok []
  | item :: rest =>
      if strings.length ≤ item.name.toNat then sectionKernels strings rest
      else
        match findNul strings item.name.toNat with
        | none => sectionKernels strings rest
        | some stop => do
            let name ← textUpTo strings item.name stop
            if metaPrefix <+: name then do
              let names ← sectionKernels strings rest
              .ok (dropMixSuffix (name.drop metaPrefix.length) :: names)
            else sectionKernels strings rest

/-- `std::ranges::unique`, which keeps the first of each run of equal names. -/
def unique : List Bytes → List Bytes
  | [] => []
  | [name] => [name]
  | name :: next :: rest => if name = next then unique (next :: rest) else name :: unique (next :: rest)

/-- The index of the section with the section names. -/
def stringTableIndex (header : Ehdr) (first : Shdr) : BitVec 32 :=
  if header.shstrndx = 0xffff then first.link else header.shstrndx.setWidth 32

def aicoreNames (data : Data) (header : Ehdr) (sections : List Shdr) : Result Bytes (List Bytes) := do
  let first ← Checked.index sections (0 : BitVec 64)
  Checked.require (decide ((stringTableIndex header first).toNat < sections.length))
    (bytes "invalid ELF string table index")
  let table ← Checked.index sections (stringTableIndex header first)
  Checked.requireRange data.size table.offset table.size (bytes "truncated ELF string table")
  let strings ← Checked.read data.bytes table.offset table.size
  let names ← sectionKernels strings sections
  .ok (unique (names.insertionSort (· ≤ ·)))

/-- `Kernel::parse_kernel_names`. -/
def parseKernelNames (data : Data) : Result Bytes (List Bytes) := do
  Checked.require (decide (Ehdr.size ≤ data.size.toNat)) (bytes "invalid Ascend binary")
  let record ← Checked.read data.bytes (0 : BitVec 64) (BitVec.ofNat 64 Ehdr.size)
  let header := Ehdr.decode record
  Checked.require (header.ident.take 4 == elfMagic) (bytes "not an ELF file")
  Checked.require (header.ident[4]? == some 2 && header.ident[5]? == some 1) (bytes "unsupported ELF format")
  Checked.require (header.shentsize == 64 && decide (0 < header.shnum)) (bytes "invalid ELF section table")
  let tableSize ← Checked.mul (header.shnum.setWidth 64) 64
  Checked.requireRange data.size header.shoff tableSize (bytes "truncated ELF section table")
  let table ← Checked.read data.bytes header.shoff tableSize
  let sections := (List.range header.shnum.toNat).map fun i => Shdr.decode (Buffer.slice table (64 * i) 64)
  if header.isAicpu then do
    let symbols ← collectSymbols data sections sections []
    .ok (interfacePairs symbols)
  else aicoreNames data header sections

end DeepJit.Ascend
