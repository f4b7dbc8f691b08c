import DeepJit.Backend.Ascend.ElfSafety

/-!
# The kernels that an ELF file holds

What the names that `parse_kernel_names` returns are, in terms of the file: pairs of exported
functions for AICPU files, the kernels that the section names stand for otherwise.
-/

namespace DeepJit.Ascend

/-! ### What the file says -/

/-- The zero-terminated text at a position of a string table. -/
def NameAt (view : Bytes) (pos : Nat) (name : Bytes) : Prop :=
  0 ∉ name ∧ ∃ rest, view.drop pos = name ++ 0 :: rest

def Data.header (data : Data) : Ehdr := Ehdr.decode (Buffer.slice data.bytes 0 64)

/-- The section table. -/
def Data.sections (data : Data) : List Shdr :=
  (List.range data.header.shnum.toNat).map fun i =>
    Shdr.decode (Buffer.slice data.bytes (data.header.shoff.toNat + 64 * i) 64)

/-- The bytes of a section. -/
def Data.contents (data : Data) (item : Shdr) : Bytes :=
  Buffer.slice data.bytes item.offset.toNat item.size.toNat

/-- The symbol with a number in a symbol table. -/
def Data.symbol (data : Data) (table : Shdr) (i : Nat) : Sym :=
  Sym.decode (Buffer.slice data.bytes (table.offset.toNat + 24 * i) 24)

/-- The table has an exported function of this name, in the string table that it is linked to. -/
def Data.ExportsFrom (data : Data) (table : Shdr) (name : Bytes) : Prop :=
  table.isDynsym = true ∧ ∃ strings, data.sections[table.link.toNat]? = some strings ∧
    ∃ i, 24 * i < table.size.toNat ∧ (data.symbol table i).isExported = true ∧
      NameAt (data.contents strings) (data.symbol table i).name.toNat name

/-- Some dynamic symbol table of the file has an exported function of this name. -/
def Data.Exports (data : Data) (name : Bytes) : Prop := ∃ table ∈ data.sections, data.ExportsFrom table name

/-- A section of the file has this name, in the table of section names. -/
def Data.HasSection (data : Data) (name : Bytes) : Prop :=
  ∃ first strings, data.sections[0]? = some first ∧
    data.sections[(stringTableIndex data.header first).toNat]? = some strings ∧
    ∃ item ∈ data.sections, NameAt (data.contents strings) item.name.toNat name

/-- The kernel is the name without a suffix `_mix_aic` or `_mix_aiv`, if it has one. -/
def KernelOf (name kernel : Bytes) : Prop :=
  name = kernel ++ bytes "_mix_aic" ∨ name = kernel ++ bytes "_mix_aiv" ∨
    name = kernel ∧ ¬bytes "_mix_aic" <:+ name ∧ ¬bytes "_mix_aiv" <:+ name

/-! ### Texts -/

theorem NameAt.lt {view name : Bytes} {pos : Nat} (h : NameAt view pos name) : pos + name.length < view.length := by
  obtain ⟨-, rest, hdrop⟩ := h
  have hlength := congrArg List.length hdrop
  rw [List.length_drop, List.length_append, List.length_cons] at hlength
  omega

theorem NameAt.unique {view name name' : Bytes} {pos : Nat} (h : NameAt view pos name)
    (h' : NameAt view pos name') : name = name' := by
  obtain ⟨hfree, rest, hdrop⟩ := h
  obtain ⟨hfree', rest', hdrop'⟩ := h'
  have htake : ∀ text rest : Bytes, 0 ∉ text → (text ++ 0 :: rest).takeWhile (· != 0) = text := by
    intro text rest htext
    rw [List.takeWhile_append_of_pos fun byte hbyte => by
      rw [bne_iff_ne]
      exact fun heq => htext (heq ▸ hbyte)]
    simp
  rw [← htake name rest hfree, ← hdrop, hdrop', htake name' rest' hfree']

/-- A text that is found is the one up to the zero byte. -/
theorem nameAt_of_textUpTo {view name : Bytes} {pos : BitVec 32} {stop : Nat}
    (hfind : findNul view pos.toNat = some stop) (hview : view.length < 2 ^ 64)
    (h : textUpTo view pos stop = .ok name) : NameAt view pos.toNat name := by
  obtain ⟨hpos, hstop, hzero, hfree⟩ := findNul_spec hfind
  obtain ⟨length, hlength, hread⟩ := Checked.ok_of_bind h
  have hsub := (Checked.toNat_of_sub hlength).2
  rw [BitVec.toNat_ofNat, Nat.mod_eq_of_lt (by omega), toNat_setWidth] at hsub
  have hname := (Checked.eq_of_read hread).2
  rw [hsub, toNat_setWidth] at hname
  rw [← hname] at hfree
  refine ⟨hfree, view.drop (stop + 1), ?_⟩
  have hsplit : view.drop pos.toNat = Buffer.slice view pos.toNat (stop - pos.toNat) ++ view.drop stop := by
    rw [Buffer.slice]
    conv_lhs => rw [← List.take_append_drop (stop - pos.toNat) (view.drop pos.toNat)]
    rw [List.drop_drop, Nat.add_sub_cancel' hpos]
  rw [hsplit, ← hname, List.drop_eq_getElem_cons hstop]
  rw [List.getElem?_eq_getElem hstop, Option.some.injEq] at hzero
  rw [hzero]

/-- A text that is there is found. -/
theorem findNul_of_nameAt {view name : Bytes} {pos : Nat} (h : NameAt view pos name) :
    ∃ stop, findNul view pos = some stop := by
  obtain ⟨-, rest, hdrop⟩ := h
  rw [findNul, hdrop]
  cases hfind : (name ++ 0 :: rest).findIdx? (· == 0) with
  | some length => exact ⟨pos + length, rfl⟩
  | none =>
      have hnone := List.findIdx?_eq_none_iff.mp hfind 0 (by simp)
      simp at hnone

theorem dropSuffix_eq_some {suffix name kernel : Bytes} :
    dropSuffix suffix name = some kernel ↔ name = kernel ++ suffix := by
  rw [dropSuffix]
  constructor
  · intro h
    split at h
    · rename_i hsuffix
      obtain ⟨front, rfl⟩ := hsuffix
      rw [Option.some.injEq, List.length_append, Nat.add_sub_cancel, List.take_left] at h
      rw [h]
    · simp at h
  · intro h
    have hsuffix : suffix <:+ name := ⟨kernel, h.symm⟩
    rw [if_pos hsuffix, h, List.length_append, Nat.add_sub_cancel, List.take_left]

theorem dropSuffix_eq_none {suffix name : Bytes} : dropSuffix suffix name = none ↔ ¬suffix <:+ name := by
  rw [dropSuffix]
  split <;> simp_all

theorem not_mixSuffixes {name kernel kernel' : Bytes} (hcube : name = kernel ++ bytes "_mix_aic")
    (hvector : name = kernel' ++ bytes "_mix_aiv") : False := by
  have hsame := List.append_inj' (hcube.symm.trans hvector) (by decide)
  exact absurd hsame.2 (by decide)

theorem dropMixSuffix_iff (name kernel : Bytes) : dropMixSuffix name = kernel ↔ KernelOf name kernel := by
  rw [dropMixSuffix, KernelOf]
  cases hcube : dropSuffix (bytes "_mix_aic") name with
  | some front =>
      rw [dropSuffix_eq_some] at hcube
      constructor
      · intro h
        exact .inl (h ▸ hcube)
      · intro h
        rcases h with h | h | ⟨-, hnot, -⟩
        · exact List.append_cancel_right (hcube.symm.trans h)
        · exact (not_mixSuffixes hcube h).elim
        · exact absurd ⟨front, hcube.symm⟩ hnot
  | none =>
      rw [dropSuffix_eq_none] at hcube
      cases hvector : dropSuffix (bytes "_mix_aiv") name with
      | some front =>
          rw [dropSuffix_eq_some] at hvector
          constructor
          · intro h
            exact .inr (.inl (h ▸ hvector))
          · intro h
            rcases h with h | h | ⟨-, -, hnot⟩
            · exact absurd ⟨kernel, h.symm⟩ hcube
            · exact List.append_cancel_right (hvector.symm.trans h)
            · exact absurd ⟨front, hvector.symm⟩ hnot
      | none =>
          rw [dropSuffix_eq_none] at hvector
          constructor
          · intro h
            exact .inr (.inr ⟨h, hcube, hvector⟩)
          · intro h
            rcases h with h | h | ⟨h, -⟩
            · exact absurd ⟨kernel, h.symm⟩ hcube
            · exact absurd ⟨kernel, h.symm⟩ hvector
            · exact h

/-! ### AICPU binaries -/

/-- A symbol of the table from `k` on is an exported function of this name. -/
def Data.ExportsBehind (data : Data) (table : Shdr) (names : Bytes) (k : Nat) (name : Bytes) : Prop :=
  ∃ i, k ≤ i ∧ 24 * i < table.size.toNat ∧ (data.symbol table i).isExported = true ∧
    NameAt names (data.symbol table i).name.toNat name

theorem not_exportsBehind {data : Data} {table : Shdr} {names name : Bytes} {k : Nat}
    (hend : table.size.toNat ≤ 24 * k) : ¬data.ExportsBehind table names k name := by
  intro h
  obtain ⟨i, hi, hlt, -⟩ := h
  omega

/-- The symbol at a position, and those behind it. -/
theorem exportsBehind_iff {data : Data} {table : Shdr} {names name : Bytes} {k : Nat}
    (hmore : 24 * k < table.size.toNat) : data.ExportsBehind table names k name ↔
      ((data.symbol table k).isExported = true ∧ NameAt names (data.symbol table k).name.toNat name) ∨
        data.ExportsBehind table names (k + 1) name := by
  constructor
  · intro h
    obtain ⟨i, hi, hsize, hexported, hname⟩ := h
    by_cases heq : i = k
    · subst heq
      exact .inl ⟨hexported, hname⟩
    · exact .inr ⟨i, by omega, hsize, hexported, hname⟩
  · intro h
    rcases h with ⟨hexported, hname⟩ | ⟨i, hi, hrest⟩
    · exact ⟨k, Nat.le_refl k, hmore, hexported, hname⟩
    · exact ⟨i, by omega, hrest⟩

theorem mem_insert {symbols : List Bytes} {text name : Bytes} :
    name ∈ (if symbols.contains text then symbols else symbols.orderedInsert (· ≤ ·) text) ↔
      name ∈ symbols ∨ name = text := by
  split
  · rename_i hold
    exact ⟨.inl, fun h => h.elim id fun heq => heq ▸ List.contains_iff_mem.mp hold⟩
  · rw [List.mem_orderedInsert, or_comm]

theorem nodup_insert {symbols : List Bytes} {text : Bytes} (h : symbols.Nodup) :
    (if symbols.contains text then symbols else symbols.orderedInsert (· ≤ ·) text).Nodup := by
  split
  · exact h
  · rename_i habsent
    have hnew : text ∉ symbols := fun hmem => habsent (List.contains_iff_mem.mpr hmem)
    exact (List.perm_orderedInsert _ _ _).nodup_iff.mpr (List.nodup_cons.mpr ⟨hnew, h⟩)

/-- At the end of the table no symbol is left. -/
theorem mem_symbols_done {data : Data} {table : Shdr} {names : Bytes} {fuel k : Nat} {offset : BitVec 64}
    {symbols symbols' : List Bytes} (hoffset : offset.toNat = 24 * k) (hdone : ¬offset < table.size)
    (h : symbolLoop data table names fuel offset symbols = .ok symbols') :
    (symbols.Nodup → symbols'.Nodup) ∧
      ∀ name, name ∈ symbols' ↔ name ∈ symbols ∨ data.ExportsBehind table names k name := by
  have hend : table.size.toNat ≤ 24 * k := hoffset ▸ Nat.le_of_not_lt hdone
  rw [symbolLoop_done hdone] at h
  obtain rfl := Except.ok.inj h
  exact ⟨id, fun name => by simp [not_exportsBehind hend]⟩

/-- The loop adds the names of the exported functions from its position on. -/
theorem mem_symbolLoop {data : Data} {table : Shdr} {names : Bytes} (hnames : names.length < 2 ^ 64)
    (fuel : Nat) (k : Nat) (offset : BitVec 64) (symbols symbols' : List Bytes)
    (hoffset : offset.toNat = 24 * k) (h : symbolLoop data table names fuel offset symbols = .ok symbols') :
    (symbols.Nodup → symbols'.Nodup) ∧
      ∀ name, name ∈ symbols' ↔ name ∈ symbols ∨ data.ExportsBehind table names k name := by
  induction fuel generalizing k offset symbols with
  | zero =>
      by_cases hmore : offset < table.size
      · rw [symbolLoop, if_pos hmore] at h
        simp at h
      · exact mem_symbols_done hoffset hmore h
  | succ fuel ih =>
      by_cases hmore : offset < table.size
      · have hlt : 24 * k < table.size.toNat := hoffset ▸ hmore
        rw [symbolLoop, if_pos hmore] at h
        obtain ⟨position, hposition, h⟩ := Checked.ok_of_bind h
        obtain ⟨record, hrecord, h⟩ := Checked.ok_of_bind h
        obtain ⟨next, hnext, h⟩ := Checked.ok_of_bind h
        have hat := Checked.toNat_of_add hposition
        have hstep : next.toNat = 24 * (k + 1) := by
          have hsum := Checked.toNat_of_add hnext
          have hentry : (24 : BitVec 64).toNat = 24 := rfl
          omega
        have hsymbol : Sym.decode record = data.symbol table k := by
          have hcells := (Checked.eq_of_read hrecord).2
          rw [hat, hoffset] at hcells
          rw [hcells]
          rfl
        rw [hsymbol] at h
        split at h
        · rename_i hskipped
          have hnot : ¬(data.symbol table k).isExported = true := by simpa using hskipped
          obtain ⟨hnodup, hmem⟩ := ih (k + 1) next symbols hstep h
          refine ⟨hnodup, fun name => ?_⟩
          rw [hmem, exportsBehind_iff hlt]
          simp [hnot]
        · rename_i hexported
          have hyes : (data.symbol table k).isExported = true := by simpa using hexported
          obtain ⟨_, -, h⟩ := Checked.ok_of_bind h
          cases hfind : findNul names (data.symbol table k).name.toNat with
          | none => simp [hfind, Checked.throw] at h
          | some stop =>
              simp only [hfind] at h
              obtain ⟨text, htext, h⟩ := Checked.ok_of_bind h
              have hat := nameAt_of_textUpTo hfind hnames htext
              obtain ⟨hnodup, hmem⟩ := ih (k + 1) next _ hstep h
              refine ⟨fun hdistinct => hnodup (nodup_insert hdistinct), fun name => ?_⟩
              have heq : name = text ↔ NameAt names (data.symbol table k).name.toNat name :=
                ⟨fun heq => heq ▸ hat, fun hname => hname.unique hat⟩
              rw [hmem, mem_insert, exportsBehind_iff hlt, or_assoc, heq]
              simp [hyes]
      · exact mem_symbols_done hoffset hmore h

/-- The tables of the rest of the sections add their exported functions. -/
theorem mem_collectSymbols {data : Data} (rest : List Shdr) (symbols symbols' : List Bytes)
    (h : collectSymbols data data.sections rest symbols = .ok symbols') :
    (symbols.Nodup → symbols'.Nodup) ∧
      ∀ name, name ∈ symbols' ↔ name ∈ symbols ∨ ∃ table ∈ rest, data.ExportsFrom table name := by
  induction rest generalizing symbols with
  | nil =>
      obtain rfl : symbols = symbols' := Except.ok.inj h
      exact ⟨id, by simp⟩
  | cons table rest ih =>
      rw [collectSymbols] at h
      split at h
      · rename_i hskipped
        have hnot : ¬table.isDynsym = true := by simpa using hskipped
        obtain ⟨hnodup, hmem⟩ := ih symbols h
        refine ⟨hnodup, fun name => (hmem name).trans ?_⟩
        have hnone : ¬data.ExportsFrom table name := fun hexports => hnot hexports.1
        simp [hnone]
      · rename_i hdynsym
        have htable : table.isDynsym = true := by simpa using hdynsym
        obtain ⟨_, -, h⟩ := Checked.ok_of_bind h
        obtain ⟨strings, hstrings, h⟩ := Checked.ok_of_bind h
        obtain ⟨_, -, h⟩ := Checked.ok_of_bind h
        obtain ⟨_, -, h⟩ := Checked.ok_of_bind h
        obtain ⟨_, -, h⟩ := Checked.ok_of_bind h
        obtain ⟨names, hnames, h⟩ := Checked.ok_of_bind h
        obtain ⟨symbols₁, hloop, h⟩ := Checked.ok_of_bind h
        have hlink := Checked.getElem?_of_index hstrings
        have hview : names = data.contents strings := (Checked.eq_of_read hnames).2
        have hlength : names.length < 2 ^ 64 := by
          have hdata := data.length_lt
          rw [hview, Data.contents, Buffer.slice, List.length_take, List.length_drop]
          omega
        obtain ⟨hnodup₁, hmem₁⟩ := mem_symbolLoop hlength _ 0 0 symbols symbols₁ rfl hloop
        obtain ⟨hnodup, hmem⟩ := ih symbols₁ h
        refine ⟨fun hdistinct => hnodup (hnodup₁ hdistinct), fun name => ?_⟩
        have hexports : data.ExportsFrom table name ↔ data.ExportsBehind table names 0 name := by
          constructor
          · rintro ⟨-, strings', hlink', i, hi⟩
            obtain rfl : strings = strings' := Option.some.inj (hlink.symm.trans hlink')
            rw [hview]
            exact ⟨i, Nat.zero_le i, hi⟩
          · rintro ⟨i, -, hi⟩
            rw [hview] at hi
            exact ⟨htable, strings, hlink, i, hi⟩
        rw [hmem, hmem₁, ← hexports, or_assoc]
        simp

theorem interfacePair_eq_some {symbols : List Bytes} {symbol name : Bytes} :
    interfacePair symbols symbol = some name ↔ symbol = name ++ interfaceSuffix ∧ name ∈ symbols := by
  rw [interfacePair]
  cases hdrop : dropSuffix interfaceSuffix symbol with
  | none =>
      rw [dropSuffix_eq_none] at hdrop
      constructor
      · intro h
        simp at h
      · exact fun h => absurd ⟨name, h.1.symm⟩ hdrop
  | some front =>
      rw [dropSuffix_eq_some] at hdrop
      dsimp only
      constructor
      · intro h
        split at h
        · rename_i hmem
          obtain rfl := Option.some.inj h
          exact ⟨hdrop, List.contains_iff_mem.mp hmem⟩
        · simp at h
      · rintro ⟨hsymbol, hmem⟩
        obtain rfl : front = name := List.append_cancel_right (hdrop.symm.trans hsymbol)
        rw [if_pos (List.contains_iff_mem.mpr hmem)]

theorem mem_interfacePairs {symbols : List Bytes} {name : Bytes} :
    name ∈ interfacePairs symbols ↔ name ∈ symbols ∧ name ++ interfaceSuffix ∈ symbols := by
  rw [interfacePairs, List.mem_filterMap]
  constructor
  · rintro ⟨symbol, hsymbol, hname⟩
    obtain ⟨rfl, hmem⟩ := interfacePair_eq_some.mp hname
    exact ⟨hmem, hsymbol⟩
  · rintro ⟨hname, hinterface⟩
    exact ⟨name ++ interfaceSuffix, hinterface, interfacePair_eq_some.mpr ⟨rfl, hname⟩⟩

theorem nodup_interfacePairs {symbols : List Bytes} (h : symbols.Nodup) : (interfacePairs symbols).Nodup := by
  rw [interfacePairs]
  refine h.filterMap fun symbol symbol' name hname hname' => ?_
  rw [(interfacePair_eq_some.mp hname).1, (interfacePair_eq_some.mp hname').1]

/-! ### AICore binaries -/

theorem mem_sectionKernels {strings : Bytes} (hstrings : strings.length < 2 ^ 64) (sections : List Shdr)
    (names : List Bytes) (h : sectionKernels strings sections = .ok names) (kernel : Bytes) :
    kernel ∈ names ↔ ∃ item ∈ sections, ∃ name, NameAt strings item.name.toNat (metaPrefix ++ name) ∧
      KernelOf name kernel := by
  induction sections generalizing names with
  | nil =>
      obtain rfl : [] = names := Except.ok.inj h
      simp
  | cons item rest ih =>
      -- Without a kernel of its own, the section leaves it to the rest.
      have hskip : sectionKernels strings rest = .ok names →
          (∀ name, ¬NameAt strings item.name.toNat (metaPrefix ++ name)) →
          (kernel ∈ names ↔ ∃ item' ∈ item :: rest, ∃ name,
            NameAt strings item'.name.toNat (metaPrefix ++ name) ∧ KernelOf name kernel) := by
        intro hrest hnone
        rw [ih names hrest]
        constructor
        · rintro ⟨item', hitem', hfound⟩
          exact ⟨item', List.mem_cons_of_mem _ hitem', hfound⟩
        · rintro ⟨item', hitem', name, hname, hkernel⟩
          rcases List.mem_cons.mp hitem' with heq | hmem
          · rw [heq] at hname
            exact absurd hname (hnone name)
          · exact ⟨item', hmem, name, hname, hkernel⟩
      rw [sectionKernels] at h
      split at h
      · rename_i hlong
        refine hskip h fun name hname => ?_
        have hlt := hname.lt
        omega
      · cases hfind : findNul strings item.name.toNat with
        | none =>
            simp only [hfind] at h
            refine hskip h fun name hname => ?_
            obtain ⟨stop, hstop⟩ := findNul_of_nameAt hname
            simp [hfind] at hstop
        | some stop =>
            simp only [hfind] at h
            obtain ⟨text, htext, h⟩ := Checked.ok_of_bind h
            have hat := nameAt_of_textUpTo hfind hstrings htext
            split at h
            · rename_i hprefix
              obtain ⟨tail, htail⟩ := hprefix
              obtain ⟨names₁, hrest, h⟩ := Checked.ok_of_bind h
              obtain rfl := Except.ok.inj h
              have hdrop : text.drop metaPrefix.length = tail := by
                rw [← htail, List.drop_left]
              rw [hdrop, List.mem_cons, ih names₁ hrest]
              constructor
              · rintro (hkernel | ⟨item', hitem', hfound⟩)
                · refine ⟨item, List.mem_cons_self, tail, ?_, (dropMixSuffix_iff tail kernel).mp hkernel.symm⟩
                  rw [htail]
                  exact hat
                · exact ⟨item', List.mem_cons_of_mem _ hitem', hfound⟩
              · rintro ⟨item', hitem', name, hname, hkernel⟩
                rcases List.mem_cons.mp hitem' with heq | hmem
                · rw [heq] at hname
                  have hsame : tail = name := List.append_cancel_left (htail.trans (hat.unique hname))
                  rw [← hsame] at hkernel
                  exact .inl ((dropMixSuffix_iff tail kernel).mpr hkernel).symm
                · exact .inr ⟨item', hmem, name, hname, hkernel⟩
            · rename_i hprefix
              refine hskip h fun name hname => ?_
              exact hprefix ⟨name, hname.unique hat⟩

/-! ### Sorting -/

theorem mem_unique {names : List Bytes} {name : Bytes} : name ∈ unique names ↔ name ∈ names := by
  fun_induction unique names with
  | case1 => rfl
  | case2 => rfl
  | case3 first rest ih =>
      rw [ih]
      simp
  | case4 first next rest hne ih => rw [List.mem_cons, ih, ← List.mem_cons]

/-- In a sorted list equal names are neighbours. -/
theorem pairwise_unique {names : List Bytes} (h : names.Pairwise (· ≤ ·)) : (unique names).Pairwise (· < ·) := by
  fun_induction unique names with
  | case1 => exact List.Pairwise.nil
  | case2 name => exact List.pairwise_singleton _ _
  | case3 first rest ih => exact ih h.of_cons
  | case4 first next rest hne ih =>
      rw [List.pairwise_cons] at h ⊢
      refine ⟨fun later hlater => ?_, ih h.2⟩
      have hle := h.1 later (mem_unique.mp hlater)
      rw [← List.not_le]
      intro hge
      have heq := List.le_antisymm hle hge
      -- `first` would be behind `next`, which is not below it
      have hnext : next ≤ later := by
        rcases List.mem_cons.mp (mem_unique.mp hlater) with rfl | hmem
        · exact List.le_refl _
        · exact (List.pairwise_cons.mp h.2).1 later hmem
      exact hne (List.le_antisymm (h.1 next List.mem_cons_self) (heq ▸ hnext))

/-! ### The names of a file -/

/-- A section header of the table that was copied is the one in the file. -/
theorem slice_slice (buffer : Bytes) {offset length i n : Nat} (h : i + n ≤ length) :
    Buffer.slice (Buffer.slice buffer offset length) i n = Buffer.slice buffer (offset + i) n := by
  rw [Buffer.slice, Buffer.slice, Buffer.slice, List.drop_take, List.take_take, List.drop_drop,
    Nat.min_eq_left (by omega)]

/-- The header and the section table that a file is parsed with. -/
theorem parseKernelNames_ok {data : Data} {names : List Bytes} (h : parseKernelNames data = .ok names) :
    (if data.header.isAicpu then do
        let symbols ← collectSymbols data data.sections data.sections []
        .ok (interfacePairs symbols)
      else aicoreNames data data.header data.sections) = .ok names := by
  rw [parseKernelNames] at h
  obtain ⟨_, -, h⟩ := Checked.ok_of_bind h
  obtain ⟨record, hrecord, h⟩ := Checked.ok_of_bind h
  obtain ⟨_, -, h⟩ := Checked.ok_of_bind h
  obtain ⟨_, -, h⟩ := Checked.ok_of_bind h
  obtain ⟨_, -, h⟩ := Checked.ok_of_bind h
  obtain ⟨tableSize, hsize, h⟩ := Checked.ok_of_bind h
  obtain ⟨_, -, h⟩ := Checked.ok_of_bind h
  obtain ⟨table, htable, h⟩ := Checked.ok_of_bind h
  have hheader : Ehdr.decode record = data.header := by
    rw [(Checked.eq_of_read hrecord).2]
    rfl
  rw [hheader] at hsize htable h
  have hbytes : tableSize.toNat = 64 * data.header.shnum.toNat := by
    have hproduct := Checked.toNat_of_mul hsize
    rw [BitVec.toNat_setWidth, Nat.mod_eq_of_lt (by have hlt := data.header.shnum.isLt; omega)] at hproduct
    rw [hproduct, Nat.mul_comm]
    rfl
  have hsections : ((List.range data.header.shnum.toNat).map fun i => Shdr.decode (Buffer.slice table (64 * i) 64)) =
      data.sections := by
    apply List.map_congr_left
    intro i hi
    have hlt := List.mem_range.mp hi
    rw [(Checked.eq_of_read htable).2, slice_slice data.bytes (by omega)]
  rw [hsections] at h
  exact h

/-- The names of an AICPU file are those that it exports together with their interfaces, without
duplicates. -/
theorem parseKernelNames_aicpu {data : Data} {names : List Bytes} (h : parseKernelNames data = .ok names)
    (haicpu : data.header.isAicpu = true) :
    names.Nodup ∧ ∀ name, name ∈ names ↔ data.Exports name ∧ data.Exports (name ++ interfaceSuffix) := by
  have hparse := parseKernelNames_ok h
  rw [if_pos haicpu] at hparse
  obtain ⟨symbols, hsymbols, hnames⟩ := Checked.ok_of_bind hparse
  obtain rfl := Except.ok.inj hnames
  obtain ⟨hnodup, hmem⟩ := mem_collectSymbols data.sections [] symbols hsymbols
  have hexports : ∀ name, name ∈ symbols ↔ data.Exports name := by
    intro name
    rw [hmem, Data.Exports]
    simp
  refine ⟨nodup_interfacePairs (hnodup List.nodup_nil), fun name => ?_⟩
  rw [mem_interfacePairs, hexports, hexports]

/-- The names of any other file are, in strictly increasing order, the kernels of its sections below
the prefix. -/
theorem parseKernelNames_aicore {data : Data} {names : List Bytes} (h : parseKernelNames data = .ok names)
    (haicore : data.header.isAicpu = false) :
    names.Pairwise (· < ·) ∧ ∀ kernel, kernel ∈ names ↔
      ∃ name, data.HasSection (metaPrefix ++ name) ∧ KernelOf name kernel := by
  have hparse := parseKernelNames_ok h
  rw [if_neg (by simp [haicore]), aicoreNames] at hparse
  obtain ⟨first, hfirst, hparse⟩ := Checked.ok_of_bind hparse
  obtain ⟨_, -, hparse⟩ := Checked.ok_of_bind hparse
  obtain ⟨table, htable, hparse⟩ := Checked.ok_of_bind hparse
  obtain ⟨_, -, hparse⟩ := Checked.ok_of_bind hparse
  obtain ⟨strings, hstrings, hparse⟩ := Checked.ok_of_bind hparse
  obtain ⟨found, hfound, hnames⟩ := Checked.ok_of_bind hparse
  obtain rfl := Except.ok.inj hnames
  have hview : strings = data.contents table := (Checked.eq_of_read hstrings).2
  have hlength : strings.length < 2 ^ 64 := by
    have hdata := data.length_lt
    rw [hview, Data.contents, Buffer.slice, List.length_take, List.length_drop]
    omega
  have hfirst' : data.sections[0]? = some first := Checked.getElem?_of_index hfirst
  have htable' := Checked.getElem?_of_index htable
  refine ⟨pairwise_unique (List.pairwise_insertionSort (· ≤ ·) found), fun kernel => ?_⟩
  rw [mem_unique, List.mem_insertionSort, mem_sectionKernels hlength data.sections found hfound]
  constructor
  · rintro ⟨item, hitem, name, hname, hkernel⟩
    rw [hview] at hname
    exact ⟨name, ⟨first, table, hfirst', htable', item, hitem, hname⟩, hkernel⟩
  · rintro ⟨name, ⟨first', table', hfirst'', htable'', item, hitem, hname⟩, hkernel⟩
    obtain rfl : first = first' := Option.some.inj (hfirst'.symm.trans hfirst'')
    obtain rfl : table = table' := Option.some.inj (htable'.symm.trans htable'')
    rw [← hview] at hname
    exact ⟨item, hitem, name, hname, hkernel⟩

/-- The names of an accepted file are exactly its kernels. In an AArch64 shared object these are the
names that it exports together with their interfaces, and they are listed without duplicates. In any
other file they are the ones that the section names stand for, in strictly increasing order. -/
theorem parseKernelNames_exact (data : Data) (names : List Bytes) (h : parseKernelNames data = .ok names) :
    (data.header.isAicpu = true → names.Nodup ∧
      ∀ name, name ∈ names ↔ data.Exports name ∧ data.Exports (name ++ interfaceSuffix)) ∧
    (data.header.isAicpu = false → names.Pairwise (· < ·) ∧
      ∀ kernel, kernel ∈ names ↔ ∃ name, data.HasSection (metaPrefix ++ name) ∧ KernelOf name kernel) :=
  ⟨parseKernelNames_aicpu h, parseKernelNames_aicore h⟩

/-- A file with two sections, the second of which is the table of the section names and is itself
named `.ascend.meta.k_mix_aic`. -/
def mixKernelImage : Data where
  bytes :=
    elfMagic ++ [2, 1] ++ List.replicate 34 0 ++ [64] ++ List.replicate 17 0 ++ [64, 0, 2, 0, 1, 0] ++
      List.replicate 64 0 ++
      [1, 0, 0, 0, 3] ++ List.replicate 19 0 ++ [192] ++ List.replicate 7 0 ++ [24] ++ List.replicate 31 0 ++
      [0] ++ metaPrefix ++ bytes "k_mix_aic" ++ [0]
  length_lt := by decide +kernel

theorem parseKernelNames_exact_mixKernelImage :
    parseKernelNames mixKernelImage = .ok [bytes "k"] ∧
      ∃ name, mixKernelImage.HasSection (metaPrefix ++ name) ∧ KernelOf name (bytes "k") := by
  have haccepted : parseKernelNames mixKernelImage = .ok [bytes "k"] := by decide +kernel
  obtain ⟨-, hexact⟩ := (parseKernelNames_exact mixKernelImage [bytes "k"] haccepted).2 (by decide +kernel)
  exact ⟨haccepted, (hexact (bytes "k")).mp (List.mem_singleton_self _)⟩

end DeepJit.Ascend
