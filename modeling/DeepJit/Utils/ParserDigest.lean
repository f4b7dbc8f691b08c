import DeepJit.Utils.Parser
import Mathlib.Data.List.Dedup

/-!
# What the source digest depends on

Two results about `Parser::parse_into_hash`, for every filesystem that stays as it is. The memo is
transparent: any sequence of calls on one parser gives, call by call, what a depth-first evaluation
gives that starts over each time and keeps only the stack of headers being expanded. And the digest
is the include closure: it is the same for two sources exactly when the sources and, occurrence by
occurrence, the headers below them have the same bytes, wherever the headers were found.
-/

namespace DeepJit

open MemoEval

section

variable (digest : List Bytes → Bytes) (fs : FileSystem) (parser : Parser)

/-- The distinct names tracked in a source or in any file. -/
def trackedNames (code : Bytes) : List Bytes :=
  ((code :: fs.files).flatMap (tracked parser.includePrefixes)).dedup

/-- No recursion on this source goes deeper. -/
def depth (code : Bytes) : Nat := (trackedNames fs parser code).length + 1

/-- `Parser::parse_into_hash`. -/
def parseIntoHash (code : Bytes) (state : Parser.State) :
    Option (Except ParseError Bytes × Parser.State) :=
  parseIntoHashWith digest parser (parseIncludesIntoHash digest fs parser (depth fs parser code)) code state

/-- The results of a sequence of calls on one parser. -/
def parseCalls : List Bytes → Parser.State → List (Option (Except ParseError Bytes))
  | [], _ => []
  | code :: codes, state =>
      match parseIntoHash digest fs parser code state with
      | none => [none]
      | some (result, state) => some result :: parseCalls codes state

/-- Depth-first evaluation of one source without a memo. -/
def memoFreeParse (fuel : Nat) (code : Bytes) : Option (Except ParseError Bytes) :=
  evalBody (includeSystem digest fs parser) (eval (includeSystem digest fs parser) fuel [])
    (.ok (code, scan parser.includePrefixes code))

/-! ### Termination -/

variable {fs parser} in
theorem readHeader_mem_files {name code : Bytes} (hread : readHeader fs parser name = .ok code) :
    code ∈ fs.files := by
  rw [readHeader] at hread
  cases hpath : findHeader fs name parser.includeDirs with
  | error e => simp [hpath] at hread
  | ok path =>
      simp only [hpath, FileSystem.readCode] at hread
      by_cases hempty : path = []
      · simp [hempty] at hread
      · rw [if_neg hempty] at hread
        cases hres : fs.resolve path with
        | file index =>
            simp only [hres, Except.ok.injEq] at hread
            exact hread ▸ List.getElem_mem _
        | _ => simp [hres] at hread

theorem edge_includeSystem {name below : Bytes} :
    Edge (includeSystem digest fs parser) name below ↔
      ∃ code, readHeader fs parser name = .ok code ∧
      below ∈ tracked parser.includePrefixes code := by
  constructor
  · rintro ⟨code, items, hexpand, hmem⟩
    cases hread : readHeader fs parser name with
    | error e => simp [includeSystem, hread] at hexpand
    | ok text =>
        simp only [includeSystem, hread, Except.ok.injEq, Prod.mk.injEq] at hexpand
        obtain ⟨rfl, rfl⟩ := hexpand
        exact ⟨text, rfl, mem_tracked.mpr hmem⟩
  · rintro ⟨code, hread, hmem⟩
    exact ⟨code, scan parser.includePrefixes code,
      by simp [includeSystem, hread], mem_tracked.mp hmem⟩

theorem trackedNames_closed (code : Bytes) :
    ∀ name ∈ trackedNames fs parser code, ∀ below,
      Edge (includeSystem digest fs parser) name below → below ∈ trackedNames fs parser code := by
  intro name _ below hedge
  obtain ⟨text, hread, hmem⟩ := (edge_includeSystem digest fs parser).mp hedge
  rw [trackedNames, List.mem_dedup, List.mem_flatMap]
  exact ⟨text, List.mem_cons_of_mem _ (readHeader_mem_files hread), hmem⟩

theorem memoFreeParse_isSome (fuel : Nat) (code : Bytes) (hfuel : depth fs parser code ≤ fuel) :
    (memoFreeParse digest fs parser fuel code).isSome := by
  apply evalBody_isSome
  intro code' items hbody name hname
  cases hbody
  apply eval_isSome (trackedNames fs parser code) (trackedNames_closed digest fs parser code)
  · rw [trackedNames, List.mem_dedup, List.mem_flatMap]
    exact ⟨code, List.mem_cons_self, mem_tracked.mpr hname⟩
  · exact lt_of_le_of_lt (List.length_filter_le _ _) hfuel

/-- Whatever fuel the memo-free evaluation returns with, it returns the same. -/
theorem memoFreeParse_fuel (fuel : Nat) (code : Bytes) (r : Except ParseError Bytes)
    (h : memoFreeParse digest fs parser fuel code = some r) :
    memoFreeParse digest fs parser (depth fs parser code) code = some r := by
  have hmono : ∀ k fuel r, memoFreeParse digest fs parser fuel code = some r →
      memoFreeParse digest fs parser (fuel + k) code = some r := by
    intro k
    induction k with
    | zero => exact fun fuel r h => h
    | succ k ih =>
        intro fuel r h
        exact evalBody_mono (fun m r hm => eval_mono (fuel + k) [] m r hm) _ r (ih fuel r h)
  obtain ⟨r', hr'⟩ := Option.isSome_iff_exists.mp
    (memoFreeParse_isSome digest fs parser (depth fs parser code) code le_rfl)
  have h₁ := hmono (depth fs parser code) fuel r h
  have h₂ := hmono fuel (depth fs parser code) r' hr'
  rw [Nat.add_comm, h₁, Option.some.injEq] at h₂
  rw [hr', h₂]

/-! ### The memo is transparent -/

/-- Between two calls the set of headers being expanded is empty and every memoised header has a
derivation. -/
structure Parser.State.Between (state : Parser.State) : Prop where
  sound : state.Sound (includeSystem digest fs parser)
  idle : state.visiting = []

theorem Parser.State.between_new : Parser.State.Between digest fs parser {} :=
  ⟨Memo.sound_empty _ [], rfl⟩

theorem parseIntoHash_spec (code : Bytes) (state : Parser.State)
    (hstate : Parser.State.Between digest fs parser state) :
    ∃ result after, parseIntoHash digest fs parser code state = some (result, after) ∧
      memoFreeParse digest fs parser (depth fs parser code) code = some result ∧
      Parser.State.Between digest fs parser after ∧
      ∀ d, result = .ok d → DerivesBody (includeSystem digest fs parser)
        (.ok (code, scan parser.includePrefixes code)) d := by
  obtain ⟨result, hresult⟩ := Option.isSome_iff_exists.mp
    (memoFreeParse_isSome digest fs parser (depth fs parser code) code le_rfl)
  have hvisit : ∀ k items, (.ok (code, scan parser.includePrefixes code) :
        Except ParseError (Bytes × List (Except ParseError Bytes))) = .ok (k, items) →
      ∀ n, .ok n ∈ items → ∀ memo r, memo.Sound (includeSystem digest fs parser) →
        memo.visiting = [] →
      eval (includeSystem digest fs parser) (depth fs parser code) [] n = some r →
      Agrees (includeSystem digest fs parser) (Derives (includeSystem digest fs parser) n) [] r
        (memoEval (includeSystem digest fs parser) (depth fs parser code) n memo) := by
    intro k items _ n _ memo r hsound hidle heval
    rw [← hidle] at heval ⊢
    exact memoEval_of_eval (depth fs parser code) n memo r hsound (by simp [hidle]) heval
  obtain ⟨after, hout, hsound, hidle, hgood⟩ := memoBody_of_evalBody
    (.ok (code, scan parser.includePrefixes code)) hvisit state result hstate.sound hstate.idle hresult
  have hparse : parseIncludesIntoHash digest fs parser (depth fs parser code) =
      memoEval (includeSystem digest fs parser) (depth fs parser code) := by
    funext key state
    exact parseIncludesIntoHash_eq digest fs parser _ key state
  refine ⟨result, after, ?_, hresult, ⟨hsound, hidle⟩, hgood⟩
  rw [parseIntoHash, hparse, parseIntoHashWith_eq digest fs, hout]

theorem parseCalls_eq (codes : List Bytes) (state : Parser.State)
    (hstate : Parser.State.Between digest fs parser state) :
    parseCalls digest fs parser codes state =
      codes.map fun code => memoFreeParse digest fs parser (depth fs parser code) code := by
  induction codes generalizing state with
  | nil => rfl
  | cons code codes ih =>
      obtain ⟨result, after, hcall, hfree, hafter, _⟩ :=
        parseIntoHash_spec digest fs parser code state hstate
      rw [parseCalls, hcall, List.map_cons, hfree, ← ih after hafter]

/-- Every call of every sequence of calls on one parser returns, and returns the digest or the error
of the memo-free evaluation of its own source. The fuel of that evaluation does not matter. -/
theorem parseCalls_memo_transparent (codes : List Bytes) :
    parseCalls digest fs parser codes {} =
        (codes.map fun code => memoFreeParse digest fs parser (depth fs parser code) code) ∧
      (∀ code, (memoFreeParse digest fs parser (depth fs parser code) code).isSome) ∧
      ∀ fuel code r, memoFreeParse digest fs parser fuel code = some r →
        memoFreeParse digest fs parser (depth fs parser code) code = some r :=
  ⟨parseCalls_eq digest fs parser codes {} (Parser.State.between_new digest fs parser),
    fun code => memoFreeParse_isSome digest fs parser _ code le_rfl,
    fun fuel code r h => memoFreeParse_fuel digest fs parser fuel code r h⟩

end

/-! ### Include closures

Two sources with the same closure have the same bytes, and so do, recursively, the headers that each
tracked occurrence resolves to on either side. -/

inductive SameClosure (fs₁ : FileSystem) (parser₁ : Parser) (fs₂ : FileSystem) (parser₂ : Parser) :
    Bytes → Bytes → Prop
  | intro {code : Bytes} {left right : Bytes → Bytes}
      (hleft : ∀ name ∈ tracked parser₁.includePrefixes code, readHeader fs₁ parser₁ name = .ok (left name))
      (hright : ∀ name ∈ tracked parser₂.includePrefixes code, readHeader fs₂ parser₂ name = .ok (right name))
      (hbelow : ∀ name ∈ tracked parser₁.includePrefixes code,
        SameClosure fs₁ parser₁ fs₂ parser₂ (left name) (right name)) :
      SameClosure fs₁ parser₁ fs₂ parser₂ code code

/-- A name that a source tracks, itself or through the headers it tracks. -/
inductive TransitivelyTracked (fs : FileSystem) (parser : Parser) : Bytes → Bytes → Prop
  | direct {code name : Bytes} (hname : name ∈ tracked parser.includePrefixes code) :
      TransitivelyTracked fs parser code name
  | through {code name header below : Bytes} (hname : name ∈ tracked parser.includePrefixes code)
      (hread : readHeader fs parser name = .ok header)
      (hbelow : TransitivelyTracked fs parser header below) :
      TransitivelyTracked fs parser code below

theorem SameClosure.code_eq {fs₁ fs₂ : FileSystem} {parser₁ parser₂ : Parser} {code₁ code₂ : Bytes}
    (h : SameClosure fs₁ parser₁ fs₂ parser₂ code₁ code₂) : code₁ = code₂ := by
  cases h
  rfl

section

variable {digest : List Bytes → Bytes} {fs₁ fs₂ : FileSystem} {parser₁ parser₂ : Parser}

/-- The derivation of a header is that of its contents. -/
theorem derives_includeSystem {fs : FileSystem} {parser : Parser} {name d : Bytes}
    (h : Derives (includeSystem digest fs parser) name d) :
    ∃ code hashes, readHeader fs parser name = .ok code ∧ d = digest (code :: hashes) ∧
      DerivesItems (includeSystem digest fs parser) (scan parser.includePrefixes code) hashes := by
  obtain ⟨hexpand, hitems⟩ := h
  rename_i code items hashes
  cases hread : readHeader fs parser name with
  | error e => simp [includeSystem, hread] at hexpand
  | ok text =>
      simp only [includeSystem, hread, Except.ok.injEq, Prod.mk.injEq] at hexpand
      obtain ⟨rfl, rfl⟩ := hexpand
      exact ⟨text, hashes, rfl, rfl, hitems⟩

/-- Same contents below, same hashes. -/
theorem derivesItems_eq_of_forall {items : List (Except ParseError Bytes)}
    {hashes₁ hashes₂ : List Bytes}
    (h₁ : DerivesItems (includeSystem digest fs₁ parser₁) items hashes₁)
    (h₂ : DerivesItems (includeSystem digest fs₂ parser₂) items hashes₂)
    (hsame : ∀ name, .ok name ∈ items →
      ∀ d₁ d₂, Derives (includeSystem digest fs₁ parser₁) name d₁ →
      Derives (includeSystem digest fs₂ parser₂) name d₂ → d₁ = d₂) : hashes₁ = hashes₂ := by
  induction items generalizing hashes₁ hashes₂ with
  | nil =>
      cases h₁
      cases h₂
      rfl
  | cons item rest ih =>
      cases h₁ with
      | cons hhead₁ htail₁ =>
          cases h₂ with
          | cons hhead₂ htail₂ =>
              have hd := hsame _ (by simp) _ _ hhead₁ hhead₂
              have hrest := ih htail₁ htail₂ fun name hname => hsame name (by simp [hname])
              rw [hd, hrest]

theorem SameClosure.digest_eq (hprefixes : parser₁.includePrefixes = parser₂.includePrefixes)
    {code₁ code₂ : Bytes} (hsame : SameClosure fs₁ parser₁ fs₂ parser₂ code₁ code₂)
    {hashes₁ hashes₂ : List Bytes}
    (h₁ : DerivesItems (includeSystem digest fs₁ parser₁) (scan parser₁.includePrefixes code₁) hashes₁)
    (h₂ : DerivesItems (includeSystem digest fs₂ parser₂) (scan parser₂.includePrefixes code₂) hashes₂) :
    hashes₁ = hashes₂ := by
  induction hsame generalizing hashes₁ hashes₂ with
  | @intro code left right hleft hright _ ih =>
      rw [← hprefixes] at h₂
      refine derivesItems_eq_of_forall h₁ h₂ ?_
      intro name hname d₁ d₂ hd₁ hd₂
      have hmem : name ∈ tracked parser₁.includePrefixes code := mem_tracked.mpr hname
      obtain ⟨text₁, below₁, hread₁, rfl, hitems₁⟩ := derives_includeSystem hd₁
      obtain ⟨text₂, below₂, hread₂, rfl, hitems₂⟩ := derives_includeSystem hd₂
      have htext₁ : left name = text₁ := Except.ok.inj ((hleft name hmem).symm.trans hread₁)
      have htext₂ : right name = text₂ :=
        Except.ok.inj ((hright name (hprefixes ▸ hmem)).symm.trans hread₂)
      subst htext₁ htext₂
      have hcode : left name = right name := by
        rename_i hbelow
        exact (hbelow name hmem).code_eq
      rw [ih name hmem hitems₁ hitems₂, hcode]

theorem sameClosure_self (hprefixes : parser₁.includePrefixes = parser₂.includePrefixes)
    {code : Bytes}
    (h : ∀ name ∈ tracked parser₁.includePrefixes code, ∃ left right,
      readHeader fs₁ parser₁ name = .ok left ∧ readHeader fs₂ parser₂ name = .ok right ∧
        SameClosure fs₁ parser₁ fs₂ parser₂ left right) : SameClosure fs₁ parser₁ fs₂ parser₂ code code := by
  classical
  choose! left right hleft hright hbelow using h
  exact .intro hleft (fun name hname => hright name (hprefixes ▸ hname)) hbelow

/-- Equal hash lists assign equal hashes to every occurrence. -/
theorem exists_common_hash {items : List (Except ParseError Bytes)} {hashes : List Bytes}
    (h₁ : DerivesItems (includeSystem digest fs₁ parser₁) items hashes)
    (h₂ : DerivesItems (includeSystem digest fs₂ parser₂) items hashes) {name : Bytes}
    (hname : .ok name ∈ items) :
    ∃ d, Derives (includeSystem digest fs₁ parser₁) name d ∧
    Derives (includeSystem digest fs₂ parser₂) name d := by
  induction items generalizing hashes with
  | nil => simp at hname
  | cons item rest ih =>
      cases h₁ with
      | cons hhead₁ htail₁ =>
          cases h₂ with
          | cons hhead₂ htail₂ =>
              rcases List.mem_cons.mp hname with heq | hrest
              · cases heq
                exact ⟨_, hhead₁, hhead₂⟩
              · exact ih htail₁ htail₂ hrest

/-- Equal hashes of two headers come from equal closures, when the digest keeps its components
apart. -/
theorem sameClosure_of_derives (hdigest : Function.Injective digest)
    (hprefixes : parser₁.includePrefixes = parser₂.includePrefixes) {name₁ name₂ d : Bytes}
    (h₁ : Derives (includeSystem digest fs₁ parser₁) name₁ d)
    (h₂ : Derives (includeSystem digest fs₂ parser₂) name₂ d) : ∃ left right,
      readHeader fs₁ parser₁ name₁ = .ok left ∧ readHeader fs₂ parser₂ name₂ = .ok right ∧
        SameClosure fs₁ parser₁ fs₂ parser₂ left right := by
  refine Derives.below_induction (P := fun name₁ => ∀ name₂ d,
    Derives (includeSystem digest fs₁ parser₁) name₁ d →
      Derives (includeSystem digest fs₂ parser₂) name₂ d →
      ∃ left right, readHeader fs₁ parser₁ name₁ = .ok left ∧
        readHeader fs₂ parser₂ name₂ = .ok right ∧
        SameClosure fs₁ parser₁ fs₂ parser₂ left right) ?_ h₁ name₂ d h₁ h₂
  intro name₁ _ _ ih name₂ d h₁ h₂
  obtain ⟨left, hashes₁, hread₁, rfl, hitems₁⟩ := derives_includeSystem h₁
  obtain ⟨right, hashes₂, hread₂, heq, hitems₂⟩ := derives_includeSystem h₂
  obtain ⟨rfl, rfl⟩ : left = right ∧ hashes₁ = hashes₂ := List.cons.inj (hdigest heq)
  refine ⟨left, left, hread₁, hread₂, sameClosure_self hprefixes fun name hname => ?_⟩
  rw [← hprefixes] at hitems₂
  obtain ⟨d, hd₁, hd₂⟩ := exists_common_hash hitems₁ hitems₂ (mem_tracked.mp hname)
  exact ih name ((edge_includeSystem digest fs₁ parser₁).mpr ⟨left, hread₁, hname⟩) name d hd₁ hd₂

/-- A header whose whole closure reads the same on both sides has the same closure on both sides. -/
theorem sameClosure_of_readHeader_eq (hprefixes : parser₁.includePrefixes = parser₂.includePrefixes)
    {name d : Bytes} (h : Derives (includeSystem digest fs₁ parser₁) name d) {code : Bytes}
    (hread : readHeader fs₁ parser₁ name = .ok code)
    (hsame : ∀ m, TransitivelyTracked fs₁ parser₁ code m →
      readHeader fs₁ parser₁ m = readHeader fs₂ parser₂ m) :
    SameClosure fs₁ parser₁ fs₂ parser₂ code code := by
  refine Derives.below_induction (P := fun name => ∀ code, readHeader fs₁ parser₁ name = .ok code →
    (∀ m, TransitivelyTracked fs₁ parser₁ code m →
      readHeader fs₁ parser₁ m = readHeader fs₂ parser₂ m) →
      SameClosure fs₁ parser₁ fs₂ parser₂ code code) ?_ h code hread hsame
  intro name d hd ih code hread hsame
  obtain ⟨text, hashes, htext, _, hitems⟩ := derives_includeSystem hd
  obtain rfl : code = text := Except.ok.inj (hread.symm.trans htext)
  refine sameClosure_self hprefixes fun below hbelow => ?_
  obtain ⟨d', hd'⟩ := hitems.exists_derives (mem_tracked.mp hbelow)
  obtain ⟨header, _, hheader, _, _⟩ := derives_includeSystem hd'
  refine ⟨header, header, hheader, by rw [← hsame below (.direct hbelow), hheader], ?_⟩
  exact ih below ((edge_includeSystem digest fs₁ parser₁).mpr ⟨code, hread, hbelow⟩) header hheader
    fun m hm => hsame m (.through hbelow hheader hm)

/-- Inside one closure every transitively tracked header reads the same on both sides. -/
theorem SameClosure.readHeader_eq (hprefixes : parser₁.includePrefixes = parser₂.includePrefixes)
    {code₁ code₂ name : Bytes} (hsame : SameClosure fs₁ parser₁ fs₂ parser₂ code₁ code₂)
    (hname : TransitivelyTracked fs₁ parser₁ code₁ name) :
    readHeader fs₁ parser₁ name = readHeader fs₂ parser₂ name := by
  induction hname generalizing code₂ with
  | direct hname =>
      obtain ⟨hleft, hright, hbelow⟩ := hsame
      rw [hleft _ hname, hright _ (hprefixes ▸ hname), (hbelow _ hname).code_eq]
  | through hname hread _ ih =>
      obtain ⟨hleft, hright, hbelow⟩ := hsame
      have hcode := Except.ok.inj ((hleft _ hname).symm.trans hread)
      exact ih (hcode ▸ hbelow _ hname)

end

/-! ### The digest identifies the closure -/

/-- The parser after a sequence of calls, as far as they returned. -/
def Parser.State.after (digest : List Bytes → Bytes) (fs : FileSystem) (parser : Parser) :
    List Bytes → Parser.State → Parser.State
  | [], state => state
  | code :: codes, state =>
      match parseIntoHash digest fs parser code state with
      | none => state
      | some (_, next) => after digest fs parser codes next

theorem Parser.State.Between.after {digest : List Bytes → Bytes} {fs : FileSystem} {parser : Parser}
    (codes : List Bytes) {state : Parser.State}
    (hstate : Parser.State.Between digest fs parser state) :
    Parser.State.Between digest fs parser (Parser.State.after digest fs parser codes state) := by
  induction codes generalizing state with
  | nil => exact hstate
  | cons code codes ih =>
      obtain ⟨result, next, hcall, _, hnext, _⟩ :=
        parseIntoHash_spec digest fs parser code state hstate
      rw [Parser.State.after, hcall]
      exact ih hnext

/-- What a successful call on a used parser says about its source. -/
theorem derivesItems_of_parseIntoHash {digest : List Bytes → Bytes} {fs : FileSystem}
    {parser : Parser} {history : List Bytes} {code d : Bytes} {next : Parser.State}
    (h : parseIntoHash digest fs parser code (Parser.State.after digest fs parser history {}) =
      some (.ok d, next)) : ∃ hashes, d = digest (code :: hashes) ∧
        DerivesItems (includeSystem digest fs parser)
          (scan parser.includePrefixes code) hashes := by
  obtain ⟨result, after, hcall, _, _, hgood⟩ := parseIntoHash_spec digest fs parser code _
    ((Parser.State.between_new digest fs parser).after history)
  rw [h, Option.some.injEq, Prod.mk.injEq] at hcall
  obtain ⟨k, items, hashes, hbody, hitems, rfl⟩ := hgood d hcall.1.symm
  cases hbody
  exact ⟨hashes, rfl, hitems⟩

/-- The digests of two sources, computed by two parsers with the same prefixes over their own
filesystems and after any earlier calls, are equal exactly when the sources have the same closure.
So moving headers never changes a digest, and changing a transitively tracked header always does. -/
theorem parseIntoHash_digest_eq_iff (digest : List Bytes → Bytes)
    (hdigest : Function.Injective digest) (fs₁ fs₂ : FileSystem) (parser₁ parser₂ : Parser)
    (hprefixes : parser₁.includePrefixes = parser₂.includePrefixes) (history₁ history₂ : List Bytes)
    (code₁ code₂ d₁ d₂ : Bytes) (next₁ next₂ : Parser.State)
    (h₁ : parseIntoHash digest fs₁ parser₁ code₁ (Parser.State.after digest fs₁ parser₁ history₁ {}) =
      some (.ok d₁, next₁))
    (h₂ : parseIntoHash digest fs₂ parser₂ code₂ (Parser.State.after digest fs₂ parser₂ history₂ {}) =
      some (.ok d₂, next₂)) :
    (d₁ = d₂ ↔ SameClosure fs₁ parser₁ fs₂ parser₂ code₁ code₂) ∧
      (code₁ = code₂ → (∀ name, TransitivelyTracked fs₁ parser₁ code₁ name →
        readHeader fs₁ parser₁ name = readHeader fs₂ parser₂ name) → d₁ = d₂) ∧
      ∀ name, TransitivelyTracked fs₁ parser₁ code₁ name →
        readHeader fs₁ parser₁ name ≠ readHeader fs₂ parser₂ name → d₁ ≠ d₂ := by
  obtain ⟨hashes₁, rfl, hitems₁⟩ := derivesItems_of_parseIntoHash h₁
  obtain ⟨hashes₂, rfl, hitems₂⟩ := derivesItems_of_parseIntoHash h₂
  have hiff : digest (code₁ :: hashes₁) = digest (code₂ :: hashes₂) ↔
      SameClosure fs₁ parser₁ fs₂ parser₂ code₁ code₂ := by
    constructor
    · intro heq
      obtain ⟨rfl, rfl⟩ : code₁ = code₂ ∧ hashes₁ = hashes₂ := List.cons.inj (hdigest heq)
      rw [← hprefixes] at hitems₂
      refine sameClosure_self hprefixes fun name hname => ?_
      obtain ⟨d, hd₁, hd₂⟩ := exists_common_hash hitems₁ hitems₂ (mem_tracked.mp hname)
      exact sameClosure_of_derives hdigest hprefixes hd₁ hd₂
    · intro hsame
      rw [hsame.digest_eq hprefixes hitems₁ hitems₂, hsame.code_eq]
  refine ⟨hiff, ?_, ?_⟩
  · intro hcode hread
    subst hcode
    refine hiff.mpr (sameClosure_self hprefixes fun name hname => ?_)
    obtain ⟨d, hd⟩ := hitems₁.exists_derives (mem_tracked.mp hname)
    obtain ⟨header, _, hheader, _, _⟩ := derives_includeSystem hd
    refine ⟨header, header, hheader, by rw [← hread name (.direct hname), hheader], ?_⟩
    exact sameClosure_of_readHeader_eq hprefixes hd hheader
      fun m hm => hread m (.through hname hheader hm)
  · intro name hname hne heq
    exact hne ((hiff.mp heq).readHeader_eq hprefixes hname)

/-! A relocated header, with a framing of the components in place of the digest. -/

/-- Each byte after a one, each component before a zero. -/
def framed : List Bytes → Bytes
  | [] => []
  | component :: components => component.flatMap (fun byte => [1, byte]) ++ 0 :: framed components

theorem framed_injective : Function.Injective framed := by
  intro left
  induction left with
  | nil =>
      intro right h
      cases right with
      | nil => rfl
      | cons component components => simp [framed] at h
  | cons component components ih =>
      intro right h
      cases right with
      | nil => simp [framed] at h
      | cons component' components' =>
          suffices hsplit : component = component' ∧ framed components = framed components' by
            rw [hsplit.1, ih hsplit.2]
          clear ih
          simp only [framed] at h
          induction component generalizing component' with
          | nil =>
              cases component' with
              | nil => simpa using h
              | cons byte rest => simp at h
          | cons byte rest ihc =>
              cases component' with
              | nil => simp at h
              | cons byte' rest' =>
                  simp only [List.flatMap_cons, List.cons_append, List.nil_append, List.cons.injEq,
                    true_and] at h
                  obtain ⟨rfl, hrest⟩ := h
                  obtain ⟨rfl, htail⟩ := ihc rest' hrest
                  exact ⟨rfl, htail⟩

/-- One header, found at one path only. -/
def oneHeader (path header : Bytes) : FileSystem where
  files := [header]
  resolve p := if p = path then .file ⟨0, by simp⟩ else .missing

theorem parseIntoHash_digest_eq_relocated :
    SameClosure (oneHeader (bytes "/old/k/h") (bytes "x")) ⟨[bytes "/old"], [bytes "k/"]⟩
      (oneHeader (bytes "/new/k/h") (bytes "x")) ⟨[bytes "/old", bytes "/new"], [bytes "k/"]⟩
      (bytes "#include <k/h>") (bytes "#include <k/h>") :=
  (parseIntoHash_digest_eq_iff framed framed_injective
    (oneHeader (bytes "/old/k/h") (bytes "x")) (oneHeader (bytes "/new/k/h") (bytes "x"))
    ⟨[bytes "/old"], [bytes "k/"]⟩ ⟨[bytes "/old", bytes "/new"], [bytes "k/"]⟩ rfl [] []
    (bytes "#include <k/h>") (bytes "#include <k/h>")
    (framed [bytes "#include <k/h>", framed [bytes "x"]]) (framed [bytes "#include <k/h>", framed [bytes "x"]])
    { cache := [(bytes "k/h", framed [bytes "x"])] } { cache := [(bytes "k/h", framed [bytes "x"])] }
    (by rfl) (by rfl)).1.mp rfl

end DeepJit
