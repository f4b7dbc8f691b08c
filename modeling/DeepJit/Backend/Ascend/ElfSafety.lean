import DeepJit.Backend.Ascend.Elf

/-!
# Reads of an ELF file stay inside it

Every access of `parse_kernel_names` relies on a check made before it: the section table and each
string table on their range checks, an index on its comparison with the number of sections, a symbol
on the size of its table being a multiple of the size of a symbol, a name on the search for its zero
byte. Together they leave exceptions as the only way to stop.
-/

namespace DeepJit.Ascend

open Checked (Safe)

theorem Data.toNat_size (data : Data) : data.size.toNat = data.bytes.length := by
  rw [size, BitVec.toNat_ofNat]
  exact Nat.mod_eq_of_lt data.length_lt

theorem toNat_setWidth (x : BitVec 32) : (x.setWidth 64).toNat = x.toNat := by
  rw [BitVec.toNat_setWidth]
  exact Nat.mod_eq_of_lt (Nat.lt_trans x.isLt (by decide))

/-- Where the search for a zero byte ends. -/
theorem findNul_spec {view : Bytes} {pos stop : Nat} (h : findNul view pos = some stop) :
    pos ≤ stop ∧ stop < view.length ∧ view[stop]? = some 0 ∧ 0 ∉ Buffer.slice view pos (stop - pos) := by
  rw [findNul, Option.map_eq_some_iff] at h
  obtain ⟨length, hfind, rfl⟩ := h
  rw [List.findIdx?_eq_some_iff_getElem] at hfind
  obtain ⟨hlength, hzero, hbefore⟩ := hfind
  rw [List.length_drop] at hlength
  refine ⟨by omega, by omega, ?_, ?_⟩
  · rw [List.getElem_drop, beq_iff_eq] at hzero
    rw [List.getElem?_eq_getElem (by omega), hzero]
  · intro hmem
    rw [Nat.add_sub_cancel_left, Buffer.slice, List.mem_take_iff_getElem] at hmem
    obtain ⟨i, hi, heq⟩ := hmem
    have hne := hbefore i (by omega)
    simp [heq] at hne

theorem safe_textUpTo {view : Bytes} {pos : BitVec 32} {stop : Nat} (hpos : pos.toNat ≤ stop)
    (hstop : stop < view.length) (hview : view.length < 2 ^ 64) : Safe (textUpTo view pos stop) := by
  have hnat : (BitVec.ofNat 64 stop).toNat = stop := by
    rw [BitVec.toNat_ofNat]
    exact Nat.mod_eq_of_lt (by omega)
  rw [textUpTo]
  refine (Safe.sub ?_).bind fun length hlength => Safe.read ?_
  · rw [hnat, toNat_setWidth]
    exact hpos
  · have hsub := (Checked.toNat_of_sub hlength).2
    rw [hnat, toNat_setWidth] at hsub
    rw [hsub, toNat_setWidth]
    omega

/-! ### AICPU binaries -/

theorem symbolLoop_done {data : Data} {table : Shdr} {names : Bytes} {fuel : Nat} {offset : BitVec 64}
    {symbols : List Bytes} (hdone : ¬offset < table.size) :
    symbolLoop data table names fuel offset symbols = .ok symbols := by
  cases fuel <;> rw [symbolLoop, if_neg hdone]

/-- The loop stays inside its table, whose size is a multiple of the size of a symbol, and its fuel
lasts to the end of the table. -/
theorem safe_symbolLoop {data : Data} {table : Shdr} {names : Bytes}
    (htable : table.offset.toNat + table.size.toNat ≤ data.bytes.length)
    (hsize : table.size.toNat % 24 = 0) (hnames : names.length < 2 ^ 64) (fuel : Nat)
    (offset : BitVec 64) (symbols : List Bytes) (hoffset : offset.toNat % 24 = 0)
    (hfuel : table.size.toNat ≤ offset.toNat + 24 * fuel) :
    Safe (symbolLoop data table names fuel offset symbols) := by
  have hdata := data.length_lt
  have hentry : (24 : BitVec 64).toNat = 24 := rfl
  induction fuel generalizing offset symbols with
  | zero =>
      have hdone : ¬offset < table.size := by
        rw [BitVec.lt_def]
        omega
      rw [symbolLoop_done hdone]
      exact Safe.ok _
  | succ fuel ih =>
      by_cases hmore : offset < table.size
      · have hlt : offset.toNat < table.size.toNat := hmore
        have hroom : offset.toNat + 24 ≤ table.size.toNat := by omega
        rw [symbolLoop, if_pos hmore]
        refine (Safe.add (by omega)).bind fun position hposition => ?_
        have hat := Checked.toNat_of_add hposition
        refine (Safe.read (by omega)).bind fun record hrecord => ?_
        refine (Safe.add (by omega)).bind fun next hnext => ?_
        have hstep := Checked.toNat_of_add hnext
        have hrest : ∀ symbols, Safe (symbolLoop data table names fuel next symbols) :=
          fun symbols => ih next symbols (by omega) (by omega)
        split
        · exact hrest symbols
        · refine (Safe.require _ _).bind fun _ hname => ?_
          cases hfind : findNul names (Sym.decode record).name.toNat with
          | none => exact Safe.throw _
          | some stop =>
              obtain ⟨hpos, hstop, -⟩ := findNul_spec hfind
              exact (safe_textUpTo hpos hstop hnames).bind fun name _ => hrest _
      · rw [symbolLoop_done hmore]
        exact Safe.ok _

theorem safe_collectSymbols (data : Data) (sections rest : List Shdr) (symbols : List Bytes) :
    Safe (collectSymbols data sections rest symbols) := by
  induction rest generalizing symbols with
  | nil => exact Safe.ok _
  | cons table rest ih =>
      rw [collectSymbols]
      split
      · exact ih symbols
      · refine (Safe.require _ _).bind fun _ hchecked => ?_
        have htable := Checked.require_ok hchecked
        simp only [Bool.and_eq_true, beq_iff_eq, decide_eq_true_eq] at htable
        obtain ⟨⟨-, hsize⟩, hlink⟩ := htable
        refine (Safe.index hlink).bind fun strings _ => ?_
        refine (Safe.require _ _).bind fun _ _ => ?_
        refine (Safe.requireRange _ _ _ _).bind fun _ hrange => ?_
        refine (Safe.requireRange _ _ _ _).bind fun _ hstrings => ?_
        have hinside := Checked.le_of_requireRange hrange
        have hview := Checked.le_of_requireRange hstrings
        rw [data.toNat_size] at hinside hview
        refine (Safe.read hview).bind fun names hnames => ?_
        have hlength : names.length < 2 ^ 64 := by
          have hdata := data.length_lt
          rw [(Checked.eq_of_read hnames).2, Buffer.slice, List.length_take, List.length_drop]
          omega
        have hfuel : table.size.toNat ≤ (0 : BitVec 64).toNat + 24 * (table.size.toNat / 24) := by
          show _ ≤ 0 + _
          omega
        exact (safe_symbolLoop hinside hsize hlength _ 0 symbols rfl hfuel).bind fun symbols _ => ih symbols

/-! ### AICore binaries -/

theorem safe_sectionKernels {strings : Bytes} (hstrings : strings.length < 2 ^ 64) (sections : List Shdr) :
    Safe (sectionKernels strings sections) := by
  induction sections with
  | nil => exact Safe.ok _
  | cons item rest ih =>
      rw [sectionKernels]
      split
      · exact ih
      · cases hfind : findNul strings item.name.toNat with
        | none => exact ih
        | some stop =>
            obtain ⟨hpos, hstop, -⟩ := findNul_spec hfind
            refine (safe_textUpTo hpos hstop hstrings).bind fun name _ => ?_
            split
            · exact ih.bind fun names _ => Safe.ok _
            · exact ih

theorem safe_aicoreNames (data : Data) (header : Ehdr) {sections : List Shdr} (hsections : 0 < sections.length) :
    Safe (aicoreNames data header sections) := by
  rw [aicoreNames]
  refine (Safe.index (by simpa using hsections)).bind fun first _ => ?_
  refine (Safe.require _ _).bind fun _ hindex => ?_
  have hlt := Checked.require_ok hindex
  rw [decide_eq_true_eq] at hlt
  refine (Safe.index hlt).bind fun table _ => ?_
  refine (Safe.requireRange _ _ _ _).bind fun _ hrange => ?_
  have hinside := Checked.le_of_requireRange hrange
  rw [data.toNat_size] at hinside
  refine (Safe.read hinside).bind fun strings hread => ?_
  have hlength : strings.length < 2 ^ 64 := by
    have hdata := data.length_lt
    rw [(Checked.eq_of_read hread).2, Buffer.slice, List.length_take, List.length_drop]
    omega
  exact (safe_sectionKernels hlength sections).bind fun names _ => Safe.ok _

theorem safe_parseKernelNames (data : Data) : Safe (parseKernelNames data) := by
  have hdata := data.length_lt
  rw [parseKernelNames]
  refine (Safe.require _ _).bind fun _ hfile => ?_
  have hsize := Checked.require_ok hfile
  rw [decide_eq_true_eq, data.toNat_size] at hsize
  refine (Safe.read ?_).bind fun record _ => ?_
  · show 0 + 64 ≤ data.bytes.length
    have hehdr : Ehdr.size = 64 := rfl
    omega
  refine (Safe.require _ _).bind fun _ _ => ?_
  refine (Safe.require _ _).bind fun _ _ => ?_
  refine (Safe.require _ _).bind fun _ hsections => ?_
  have hshnum := Checked.require_ok hsections
  rw [Bool.and_eq_true, decide_eq_true_eq] at hshnum
  have hpos : 0 < (Ehdr.decode record).shnum.toNat := hshnum.2
  refine (Safe.mul ?_).bind fun tableSize _ => ?_
  · have hlt := (Ehdr.decode record).shnum.isLt
    rw [BitVec.toNat_setWidth, Nat.mod_eq_of_lt (by omega)]
    show _ * 64 < _
    omega
  refine (Safe.requireRange _ _ _ _).bind fun _ hrange => ?_
  have hinside := Checked.le_of_requireRange hrange
  rw [data.toNat_size] at hinside
  refine (Safe.read hinside).bind fun table _ => ?_
  dsimp only
  split
  · exact (safe_collectSymbols data _ _ []).bind fun symbols _ => Safe.ok _
  · apply safe_aicoreNames
    simpa using hpos

/-- For every file, `parse_kernel_names` returns names or throws an exception. It never reads
outside the file or the section table, and none of its sums, differences and products of sizes
wraps, whatever the header, the sections and the symbols hold. -/
theorem parseKernelNames_returns_or_throws (data : Data) :
    (∃ names, parseKernelNames data = .ok names) ∨
      ∃ what, parseKernelNames data = .error (.thrown what) := by
  cases hparse : parseKernelNames data with
  | ok names => exact .inl ⟨names, rfl⟩
  | error fault =>
      obtain ⟨what, rfl⟩ := safe_parseKernelNames data fault hparse
      exact .inr ⟨what, rfl⟩

end DeepJit.Ascend
