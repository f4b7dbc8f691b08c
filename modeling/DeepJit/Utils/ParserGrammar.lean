import DeepJit.Utils.Parser
import Mathlib.Data.List.DropRight
import Mathlib.Data.List.TakeWhile

/-!
# The grammar of the include scanner

`Tracks` and `Rejects` say by byte patterns alone which lines of a text name a tracked header and
which are refused, `Scans` runs them over the lines of a text. The last theorem is the equivalence
with `parse_into_hash`, for every function that hashes a header.
-/

namespace DeepJit

/-! ### The grammar -/

/-- A run of spaces, tabs, form feeds and vertical tabs. -/
def Blank (run : Bytes) : Prop :=
  ∀ byte ∈ run, byte = 32 ∨ byte = 9 ∨ byte = 12 ∨ byte = 11

/-- The line is `#include text`, with blank runs before and after the `#` and before the text. -/
def Directive (line text : Bytes) : Prop :=
  ∃ before between after, Blank before ∧ Blank between ∧ Blank after ∧
    line = before ++ 35 :: (between ++ (bytes "include" ++ (after ++ text)))

/-- What may stand between `<` and `>`. -/
structure Filename (name : Bytes) : Prop where
  nonempty : name ≠ []
  noAngle : 62 ∉ name
  noQuote : 34 ∉ name
  front : ∀ byte rest, name = byte :: rest → ¬ Blank [byte]
  back : ∀ rest byte, name = rest ++ [byte] → ¬ Blank [byte]

/-- The line includes `<name>`, and one of the prefixes begins the name. -/
def Tracks (includePrefixes : List Bytes) (line name : Bytes) : Prop :=
  Filename name ∧ (∃ start ∈ includePrefixes, start <+: name) ∧
    ∃ rest, Directive line (60 :: (name ++ 62 :: rest))

/-- The line includes something that opens with `<` or `"`, and `text`, which ends at the first `>`
or `"` after that, is not a file name in angle brackets. -/
def Rejects (line text : Bytes) : Prop :=
  ∃ opening body closing rest, (opening = 60 ∨ opening = 34) ∧ (closing = 62 ∨ closing = 34) ∧
    62 ∉ body ∧ 34 ∉ body ∧ text = opening :: (body ++ [closing]) ∧ Directive line (text ++ rest) ∧
    ∀ name, Filename name → text ≠ 60 :: (name ++ [62])

/-- The lines of a text. Only the last may lack its newline, and then it is not empty. -/
inductive Lines : Bytes → List Bytes → Prop
  | empty : Lines [] []
  | unterminated {line : Bytes} : line ≠ [] → 10 ∉ line → Lines line [line]
  | terminated {line rest : Bytes} {lines : List Bytes} :
      10 ∉ line → Lines rest lines → Lines (line ++ 10 :: rest) (line :: lines)

/-- The names tracked in order, and the text at which the scan fails if it does. -/
inductive Scans (includePrefixes : List Bytes) : List Bytes → List Bytes → Option Bytes → Prop
  | done : Scans includePrefixes [] [] none
  | tracked {line name : Bytes} {lines names : List Bytes} {failure : Option Bytes} :
      Tracks includePrefixes line name → Scans includePrefixes lines names failure →
      Scans includePrefixes (line :: lines) (name :: names) failure
  | rejected {line text : Bytes} {lines : List Bytes} :
      Rejects line text → Scans includePrefixes (line :: lines) [] (some text)
  | other {line : Bytes} {lines names : List Bytes} {failure : Option Bytes} :
      (∀ name, ¬ Tracks includePrefixes line name) → (∀ text, ¬ Rejects line text) →
      Scans includePrefixes lines names failure →
      Scans includePrefixes (line :: lines) names failure

/-! ### Blank runs -/

theorem isSpace_iff {byte : UInt8} : isSpace byte = true ↔ Blank [byte] := by
  simp [isSpace, Blank, or_assoc]

theorem trimLeft_append {run : Bytes} (hrun : Blank run) (rest : Bytes) :
    trimLeft (run ++ rest) = trimLeft rest := by
  apply List.dropWhile_append_of_pos
  intro byte hmem
  rw [isSpace_iff]
  intro other hother
  rw [List.mem_singleton.mp hother]
  exact hrun byte hmem

theorem trimLeft_cons {byte : UInt8} (hbyte : ¬ Blank [byte]) (rest : Bytes) :
    trimLeft (byte :: rest) = byte :: rest := by
  rw [trimLeft, List.dropWhile_cons, if_neg]
  rwa [isSpace_iff]

theorem trimLeft_trimLeft (value : Bytes) : trimLeft (trimLeft value) = trimLeft value :=
  List.dropWhile_idempotent isSpace value

theorem exists_blank_trimLeft (value : Bytes) :
    ∃ run, Blank run ∧ value = run ++ trimLeft value := by
  refine ⟨value.takeWhile isSpace, ?_, (List.takeWhile_append_dropWhile).symm⟩
  intro byte hmem
  exact isSpace_iff.mp (List.mem_takeWhile_imp hmem) byte (List.mem_singleton.mpr rfl)

/-! ### The directive in front of the text -/

/-- The text of an include directive without its leading blanks. -/
def directiveText (line : Bytes) : Option Bytes :=
  let line := trimLeft line
  if line.head? ≠ some 35 then none
  else
    let line := trimLeft line.tail
    if ¬ (bytes "include").isPrefixOf line then none
    else some (trimLeft (line.drop (bytes "include").length))

/-- What `parse_include` makes of the text of a directive. -/
def parseText (includePrefixes : List Bytes) (text : Bytes) : Except ParseError Bytes :=
  match text with
  | [] => .ok []
  | front :: rest =>
      if front ≠ 60 ∧ front ≠ 34 then .ok []
      else
        match rest.findIdx? isClosing with
        | none => .ok []
        | some length =>
            let filename := rest.take length
            if front ≠ 60 ∨ rest[length]? ≠ some 62 ∨ filename = [] ∨
                filename.head?.any isSpace ∨ filename.getLast?.any isSpace then
              .error (.nonStandardInclude (text.take (length + 2)))
            else if includePrefixes.any (·.isPrefixOf filename) then .ok filename
            else .ok []

theorem parseInclude_eq (includePrefixes : List Bytes) (line : Bytes) :
    parseInclude includePrefixes line =
      match directiveText line with
      | none => .ok []
      | some text => parseText includePrefixes text := by
  simp only [parseInclude, directiveText]
  by_cases hhash : (trimLeft line).head? = some 35
  · by_cases hinclude : (bytes "include").isPrefixOf (trimLeft (trimLeft line).tail)
    · simp only [hhash, hinclude, ne_eq, not_true_eq_false, if_false]
      rfl
    · simp [hhash, hinclude]
  · simp [hhash]

theorem directiveText_of_directive {line text : Bytes} (h : Directive line text) :
    directiveText line = some (trimLeft text) := by
  obtain ⟨before, between, after, hbefore, hbetween, hafter, rfl⟩ := h
  have hhash : trimLeft (before ++ 35 :: (between ++ (bytes "include" ++ (after ++ text)))) =
      35 :: (between ++ (bytes "include" ++ (after ++ text))) := by
    rw [trimLeft_append hbefore, trimLeft_cons (by simp [Blank])]
  have hkeyword : trimLeft (between ++ (bytes "include" ++ (after ++ text))) =
      bytes "include" ++ (after ++ text) := by
    rw [trimLeft_append hbetween]
    exact @trimLeft_cons 105 (by simp [Blank]) _
  have hstarts : (bytes "include").isPrefixOf (bytes "include" ++ (after ++ text)) = true := by
    rw [List.isPrefixOf_iff_prefix]
    exact List.prefix_append _ _
  rw [directiveText, hhash, List.head?_cons, List.tail_cons]
  simp only [hkeyword, hstarts, ne_eq, not_true_eq_false, if_false, List.drop_left]
  rw [trimLeft_append hafter]

theorem directive_of_directiveText {line text : Bytes} (h : directiveText line = some text) :
    Directive line text ∧ trimLeft text = text := by
  rw [directiveText] at h
  by_cases hhead : (trimLeft line).head? = some 35
  · obtain ⟨tail, htail⟩ := List.head?_eq_some_iff.mp hhead
    by_cases hinclude : bytes "include" <+: trimLeft tail
    · obtain ⟨rest, hrest⟩ := hinclude
      have htext : text = trimLeft rest := by
        simpa [htail, ← hrest] using h.symm
      obtain ⟨before, hbefore, hline⟩ := exists_blank_trimLeft line
      obtain ⟨between, hbetween, hafterHash⟩ := exists_blank_trimLeft tail
      obtain ⟨after, hafter, hafterKeyword⟩ := exists_blank_trimLeft rest
      refine ⟨⟨before, between, after, hbefore, hbetween, hafter, ?_⟩, ?_⟩
      · rw [htext, ← hafterKeyword, hrest, ← hafterHash, ← htail, ← hline]
      · rw [htext, trimLeft_trimLeft]
    · simp [htail, hinclude] at h
  · simp [hhead] at h

/-! ### The text up to its closing character -/

/-- Either no character closes the text, or there is a first one. -/
theorem closing_cases (rest : Bytes) :
    (∀ byte ∈ rest, isClosing byte = false) ∨
      ∃ body closing tail, rest = body ++ closing :: tail ∧ isClosing closing = true ∧
        ∀ byte ∈ body, isClosing byte = false := by
  induction rest with
  | nil => exact .inl (by simp)
  | cons byte rest ih =>
      cases hbyte : isClosing byte with
      | true => exact .inr ⟨[], byte, rest, rfl, hbyte, by simp⟩
      | false =>
          obtain hnone | ⟨body, closing, tail, rfl, hclosing, hbody⟩ := ih
          · exact .inl (by simpa [hbyte] using hnone)
          · exact .inr ⟨byte :: body, closing, tail, rfl, hclosing, by simpa [hbyte] using hbody⟩

theorem isClosing_iff {byte : UInt8} : isClosing byte = true ↔ byte = 62 ∨ byte = 34 := by
  simp [isClosing]

theorem not_isClosing {body : Bytes} :
    (∀ byte ∈ body, isClosing byte = false) ↔ 62 ∉ body ∧ 34 ∉ body := by
  constructor
  · intro h
    exact ⟨fun hmem => absurd (h 62 hmem) (by decide), fun hmem => absurd (h 34 hmem) (by decide)⟩
  · intro ⟨hangle, hquote⟩ byte hmem
    rw [Bool.eq_false_iff, ne_eq, isClosing_iff]
    intro h
    obtain rfl | rfl := h
    · exact hangle hmem
    · exact hquote hmem

theorem findIdx?_closing {body : Bytes} {closing : UInt8} (tail : Bytes)
    (hclosing : isClosing closing = true) (hbody : ∀ byte ∈ body, isClosing byte = false) :
    (body ++ closing :: tail).findIdx? isClosing = some body.length := by
  rw [List.findIdx?_append, List.findIdx?_eq_none_iff.mpr hbody]
  simp [List.findIdx?_cons, hclosing]

theorem front_blank_iff {name : Bytes} :
    name.head?.any isSpace = true ↔ ∃ byte rest, name = byte :: rest ∧ Blank [byte] := by
  simp only [Option.any_eq_true, isSpace_iff, List.head?_eq_some_iff]
  exact ⟨fun ⟨byte, ⟨rest, hname⟩, hblank⟩ => ⟨byte, rest, hname, hblank⟩,
    fun ⟨byte, rest, hname, hblank⟩ => ⟨byte, ⟨rest, hname⟩, hblank⟩⟩

theorem back_blank_iff {name : Bytes} :
    name.getLast?.any isSpace = true ↔ ∃ byte rest, name = rest ++ [byte] ∧ Blank [byte] := by
  simp only [Option.any_eq_true, isSpace_iff, List.getLast?_eq_some_iff]
  exact ⟨fun ⟨byte, ⟨rest, hname⟩, hblank⟩ => ⟨byte, rest, hname, hblank⟩,
    fun ⟨byte, rest, hname, hblank⟩ => ⟨byte, ⟨rest, hname⟩, hblank⟩⟩

/-- The tests that `parse_include` makes on a name without closing characters. -/
theorem filename_iff {name : Bytes} (hbody : ∀ byte ∈ name, isClosing byte = false) :
    Filename name ↔ name ≠ [] ∧ ¬ name.head?.any isSpace = true ∧ ¬ name.getLast?.any isSpace = true := by
  rw [front_blank_iff, back_blank_iff]
  constructor
  · intro hname
    refine ⟨hname.nonempty, ?_, ?_⟩
    · intro ⟨byte, rest, heq, hblank⟩
      exact hname.front byte rest heq hblank
    · intro ⟨byte, rest, heq, hblank⟩
      exact hname.back rest byte heq hblank
  · intro ⟨hnonempty, hfront, hback⟩
    exact { nonempty := hnonempty
            noAngle := (not_isClosing.mp hbody).1
            noQuote := (not_isClosing.mp hbody).2
            front := fun byte rest heq hblank => hfront ⟨byte, rest, heq, hblank⟩
            back := fun rest byte heq hblank => hback ⟨byte, rest, heq, hblank⟩ }

section

variable (includePrefixes : List Bytes) {front closing : UInt8} {body : Bytes} (tail : Bytes)

/-- A text that is closed: the name, or the text up to the closing character. -/
theorem parseText_closed (hfront : front = 60 ∨ front = 34) (hclosing : isClosing closing = true)
    (hbody : ∀ byte ∈ body, isClosing byte = false) :
    parseText includePrefixes (front :: (body ++ closing :: tail)) =
      if front ≠ 60 ∨ closing ≠ 62 ∨ body = [] ∨ body.head?.any isSpace ∨ body.getLast?.any isSpace then
        .error (.nonStandardInclude (front :: (body ++ [closing])))
      else if includePrefixes.any (·.isPrefixOf body) then .ok body
      else .ok [] := by
  have hopen : ¬ (front ≠ 60 ∧ front ≠ 34) := by
    obtain rfl | rfl := hfront <;> decide
  have htext : (front :: (body ++ closing :: tail)).take (body.length + 2) =
      front :: (body ++ [closing]) := by
    rw [List.take_succ_cons, List.take_append, List.take_of_length_le (by omega)]
    simp
  simp only [parseText, if_neg hopen, findIdx?_closing tail hclosing hbody, List.take_left, htext,
    List.getElem?_append_right le_rfl, Nat.sub_self, List.getElem?_cons_zero, ne_eq,
    Option.some.injEq]

theorem parseText_filename (hname : Filename body) :
    parseText includePrefixes (60 :: (body ++ 62 :: tail)) =
      if ∃ start ∈ includePrefixes, start <+: body then .ok body else .ok [] := by
  have hbody := not_isClosing.mpr ⟨hname.noAngle, hname.noQuote⟩
  obtain ⟨hnonempty, hfront, hback⟩ := (filename_iff hbody).mp hname
  rw [parseText_closed includePrefixes tail (.inl rfl) (by decide) hbody, if_neg]
  · simp only [List.any_eq_true, List.isPrefixOf_iff_prefix]
  · simp [hnonempty, hfront, hback]

theorem parseText_refused (hfront : front = 60 ∨ front = 34) (hclosing : closing = 62 ∨ closing = 34)
    (hangle : 62 ∉ body) (hquote : 34 ∉ body)
    (hrefused : ∀ name, Filename name → front :: (body ++ [closing]) ≠ 60 :: (name ++ [62])) :
    parseText includePrefixes (front :: (body ++ closing :: tail)) =
      .error (.nonStandardInclude (front :: (body ++ [closing]))) := by
  have hbody := not_isClosing.mpr ⟨hangle, hquote⟩
  rw [parseText_closed includePrefixes tail hfront (isClosing_iff.mpr hclosing) hbody, if_pos]
  by_contra htests
  simp only [not_or, not_not] at htests
  obtain ⟨rfl, rfl, hnonempty, hspaces⟩ := htests
  exact hrefused body ((filename_iff hbody).mpr ⟨hnonempty, hspaces⟩) rfl

theorem parseText_open {text : Bytes} (h : ∀ front rest, text = front :: rest →
    (front = 60 ∨ front = 34) → ∀ byte ∈ rest, isClosing byte = false) :
    parseText includePrefixes text = .ok [] := by
  cases text with
  | nil => rfl
  | cons front rest =>
      by_cases hfront : front = 60 ∨ front = 34
      · have hnone := List.findIdx?_eq_none_iff.mpr (h front rest rfl hfront)
        simp [parseText, hnone]
      · rw [parseText, if_pos (not_or.mp hfront)]

end

/-! ### Lines that the scanner tells apart -/

theorem parseInclude_of_directive (includePrefixes : List Bytes) {line text : Bytes}
    (h : Directive line text) :
    parseInclude includePrefixes line = parseText includePrefixes (trimLeft text) := by
  rw [parseInclude_eq, directiveText_of_directive h]

theorem parseInclude_of_tracks {includePrefixes : List Bytes} {line name : Bytes}
    (h : Tracks includePrefixes line name) : parseInclude includePrefixes line = .ok name := by
  obtain ⟨hname, hstart, rest, hline⟩ := h
  rw [parseInclude_of_directive includePrefixes hline, trimLeft_cons (by simp [Blank]),
    parseText_filename includePrefixes rest hname, if_pos hstart]

theorem parseInclude_of_rejects (includePrefixes : List Bytes) {line text : Bytes}
    (h : Rejects line text) :
    parseInclude includePrefixes line = .error (.nonStandardInclude text) := by
  obtain ⟨opening, body, closing, rest, hopening, hclosing, hangle, hquote, rfl, hline, hrefused⟩ := h
  have hblank : ¬ Blank [opening] := by
    obtain rfl | rfl := hopening <;> simp [Blank]
  rw [parseInclude_of_directive includePrefixes hline, List.cons_append, trimLeft_cons hblank,
    List.append_assoc]
  exact parseText_refused includePrefixes rest hopening hclosing hangle hquote hrefused

/-- A line that neither tracks a name nor is refused contributes nothing. -/
theorem parseInclude_cases (includePrefixes : List Bytes) (line : Bytes) :
    (∃ name, Tracks includePrefixes line name) ∨ (∃ text, Rejects line text) ∨
      parseInclude includePrefixes line = .ok [] := by
  cases htext : directiveText line with
  | none => exact .inr (.inr (by rw [parseInclude_eq, htext]))
  | some text =>
      obtain ⟨hline, -⟩ := directive_of_directiveText htext
      have hparse : parseInclude includePrefixes line = parseText includePrefixes text := by
        rw [parseInclude_eq, htext]
      cases text with
      | nil => exact .inr (.inr (by rw [hparse]; rfl))
      | cons front rest =>
          by_cases hfront : front = 60 ∨ front = 34
          · obtain hnone | ⟨body, closing, tail, rfl, hclosing, hbody⟩ := closing_cases rest
            · refine .inr (.inr ?_)
              rw [hparse]
              apply parseText_open
              intro _ _ heq _
              cases heq
              exact hnone
            · obtain ⟨hangle, hquote⟩ := not_isClosing.mp hbody
              by_cases hname : front = 60 ∧ closing = 62 ∧ Filename body
              · obtain ⟨rfl, rfl, hname⟩ := hname
                by_cases hstart : ∃ start ∈ includePrefixes, start <+: body
                · exact .inl ⟨body, hname, hstart, tail, hline⟩
                · refine .inr (.inr ?_)
                  rw [hparse, parseText_filename includePrefixes tail hname, if_neg hstart]
              · refine .inr (.inl ⟨front :: (body ++ [closing]), front, body, closing, tail, hfront,
                  isClosing_iff.mp hclosing, hangle, hquote, rfl, ?_, ?_⟩)
                · simpa using hline
                · intro name hfilename heq
                  obtain ⟨hfrontAngle, hends⟩ := List.cons.inj heq
                  obtain ⟨hbodyName, hclosingAngle⟩ := List.append_inj' hends rfl
                  exact hname ⟨hfrontAngle, List.head_eq_of_cons_eq hclosingAngle, hbodyName ▸ hfilename⟩
          · refine .inr (.inr ?_)
            rw [hparse]
            apply parseText_open
            intro _ _ heq hopen
            cases heq
            exact absurd hopen hfront

theorem parseInclude_of_other {includePrefixes : List Bytes} {line : Bytes}
    (htracks : ∀ name, ¬ Tracks includePrefixes line name) (hrejects : ∀ text, ¬ Rejects line text) :
    parseInclude includePrefixes line = .ok [] := by
  obtain ⟨name, hname⟩ | ⟨text, htext⟩ | hnothing := parseInclude_cases includePrefixes line
  · exact absurd hname (htracks name)
  · exact absurd htext (hrejects text)
  · exact hnothing

/-! ### The lines of a text -/

theorem splitLines_terminated {line : Bytes} (hline : 10 ∉ line) (rest : Bytes) :
    splitLines (line ++ 10 :: rest) = line :: splitLines rest := by
  induction line with
  | nil => rfl
  | cons byte line ih =>
      have hbyte : byte ≠ 10 := fun h => hline (h ▸ List.mem_cons_self)
      rw [List.cons_append, splitLines, if_neg hbyte, ih (fun h => hline (List.mem_cons_of_mem _ h))]

theorem splitLines_unterminated {line : Bytes} (hnonempty : line ≠ []) (hline : 10 ∉ line) :
    splitLines line = [line] := by
  induction line with
  | nil => exact absurd rfl hnonempty
  | cons byte line ih =>
      have hbyte : byte ≠ 10 := fun h => hline (h ▸ List.mem_cons_self)
      rw [splitLines, if_neg hbyte]
      cases line with
      | nil => rfl
      | cons next rest =>
          rw [ih (List.cons_ne_nil next rest) (fun h => hline (List.mem_cons_of_mem _ h))]

theorem lines_splitLines (code : Bytes) : Lines code (splitLines code) := by
  induction hlength : code.length using Nat.strong_induction_on generalizing code with
  | _ length ih =>
      by_cases hnewline : 10 ∈ code
      · obtain ⟨line, rest, rfl, hline⟩ := List.eq_append_cons_of_mem hnewline
        rw [splitLines_terminated hline]
        apply Lines.terminated hline
        refine ih rest.length ?_ rest rfl
        rw [← hlength, List.length_append, List.length_cons]
        omega
      · by_cases hempty : code = []
        · exact hempty ▸ .empty
        · rw [splitLines_unterminated hempty hnewline]
          exact .unterminated hempty hnewline

theorem Lines.eq_splitLines {code : Bytes} {lines : List Bytes} (h : Lines code lines) :
    lines = splitLines code := by
  induction h with
  | empty => rfl
  | unterminated hnonempty hline => exact (splitLines_unterminated hnonempty hline).symm
  | terminated hline _ ih => rw [splitLines_terminated hline, ih]

/-! ### The scan -/

theorem exists_scans (includePrefixes lines : List Bytes) :
    ∃ names failure, Scans includePrefixes lines names failure := by
  induction lines with
  | nil => exact ⟨[], none, .done⟩
  | cons line lines ih =>
      obtain ⟨names, failure, hscan⟩ := ih
      by_cases htracks : ∃ name, Tracks includePrefixes line name
      · obtain ⟨name, hname⟩ := htracks
        exact ⟨name :: names, failure, .tracked hname hscan⟩
      · by_cases hrejects : ∃ text, Rejects line text
        · obtain ⟨text, htext⟩ := hrejects
          exact ⟨[], some text, .rejected htext⟩
        · exact ⟨names, failure, .other (not_exists.mp htracks) (not_exists.mp hrejects) hscan⟩

theorem Scans.unique {includePrefixes lines names names' : List Bytes} {failure failure' : Option Bytes}
    (h : Scans includePrefixes lines names failure)
    (h' : Scans includePrefixes lines names' failure') : names = names' ∧ failure = failure' := by
  induction h generalizing names' with
  | done =>
      cases h'
      exact ⟨rfl, rfl⟩
  | tracked hname _ ih =>
      cases h' with
      | tracked hname' hscan =>
          have heq := (parseInclude_of_tracks hname).symm.trans (parseInclude_of_tracks hname')
          obtain ⟨hnames, hfailure⟩ := ih hscan
          exact ⟨by rw [Except.ok.inj heq, hnames], hfailure⟩
      | rejected htext =>
          have heq := (parseInclude_of_tracks hname).symm.trans (parseInclude_of_rejects _ htext)
          cases heq
      | other htracks _ _ => exact absurd hname (htracks _)
  | rejected htext =>
      cases h' with
      | tracked hname' _ =>
          have heq := (parseInclude_of_tracks hname').symm.trans (parseInclude_of_rejects _ htext)
          cases heq
      | rejected htext' =>
          have heq := (parseInclude_of_rejects includePrefixes htext).symm.trans
            (parseInclude_of_rejects includePrefixes htext')
          cases heq
          exact ⟨rfl, rfl⟩
      | other _ hrejects _ => exact absurd htext (hrejects _)
  | other htracks hrejects _ ih =>
      cases h' with
      | tracked hname' _ => exact absurd hname' (htracks _)
      | rejected htext' => exact absurd htext' (hrejects _)
      | other _ _ hscan => exact ih hscan

section

variable (digest : List Bytes → Bytes) (parser : Parser)
  (visit : Bytes → Parser.State → Option (Except ParseError Bytes × Parser.State))

/-- The hashes of the headers `names` in order, up to the first that throws. -/
def visitAll : List Bytes → Parser.State → Option (Except ParseError (List Bytes) × Parser.State)
  | [], state => some (.ok [], state)
  | name :: names, state =>
      match visit name state with
      | none => none
      | some (.error e, state) => some (.error e, state)
      | some (.ok hash, state) =>
          match visitAll names state with
          | none => none
          | some (.error e, state) => some (.error e, state)
          | some (.ok hashes, state) => some (.ok (hash :: hashes), state)

/-- Throw at the refused directive, if the scan reached one. -/
def failAt {α : Type} (failure : Option Bytes) (value : α) : Except ParseError α :=
  match failure with
  | none => .ok value
  | some text => .error (.nonStandardInclude text)

/-- Hash the headers `names`, then fail at `failure` or finish the digest of the text. -/
def hashNames (code : Bytes) (names : List Bytes) (failure : Option Bytes) (state : Parser.State) :
    Option (Except ParseError Bytes × Parser.State) :=
  match visitAll visit names state with
  | none => none
  | some (.error e, state) => some (.error e, state)
  | some (.ok hashes, state) => some (failAt failure (digest (code :: hashes)), state)

theorem parseLines_of_scans {lines names : List Bytes} {failure : Option Bytes}
    (h : Scans parser.includePrefixes lines names failure) (components : List Bytes)
    (state : Parser.State) :
    parseLines parser visit lines components state =
      match visitAll visit names state with
      | none => none
      | some (.error e, state) => some (.error e, state)
      | some (.ok hashes, state) => some (failAt failure (components ++ hashes), state) := by
  induction h generalizing components state with
  | done => simp [parseLines, visitAll, failAt]
  | @tracked line name lines names failure hname _ ih =>
      obtain ⟨byte, rest, rfl⟩ := List.exists_cons_of_ne_nil hname.1.nonempty
      rw [parseLines, parseInclude_of_tracks hname, visitAll]
      simp only
      cases visit (byte :: rest) state with
      | none => rfl
      | some out =>
          obtain ⟨result, after⟩ := out
          cases result with
          | error e => rfl
          | ok hash =>
              simp only [ih]
              cases visitAll visit names after with
              | none => rfl
              | some out =>
                  obtain ⟨result, final⟩ := out
                  cases result with
                  | error e => rfl
                  | ok hashes => simp only [List.append_assoc, List.singleton_append]
  | rejected htext => simp [parseLines, visitAll, failAt, parseInclude_of_rejects _ htext]
  | other htracks hrejects _ ih =>
      rw [parseLines, parseInclude_of_other htracks hrejects]
      exact ih components state

/-- The scan accepts exactly its grammar. A text has one reading as lines, names and at most one
refused directive, and whatever the function for one header does, it is called for these names in
this order, and the refused directive is reached when none of them throws. -/
theorem parseIntoHash_scans (digest : List Bytes → Bytes) (parser : Parser) (code : Bytes) :
    ∃ lines names failure, Lines code lines ∧ Scans parser.includePrefixes lines names failure ∧
      (∀ lines' names' failure', Lines code lines' →
        Scans parser.includePrefixes lines' names' failure' →
        lines' = lines ∧ names' = names ∧ failure' = failure) ∧
      ∀ visit state, parseIntoHashWith digest parser visit code state =
        hashNames digest visit code names failure state := by
  obtain ⟨names, failure, hscan⟩ := exists_scans parser.includePrefixes (splitLines code)
  refine ⟨splitLines code, names, failure, lines_splitLines code, hscan, ?_, ?_⟩
  · intro lines' names' failure' hlines' hscan'
    obtain rfl := hlines'.eq_splitLines
    obtain ⟨hnames, hfailure⟩ := hscan'.unique hscan
    exact ⟨rfl, hnames, hfailure⟩
  · intro visit state
    rw [parseIntoHashWith, parseLines_of_scans parser visit hscan, hashNames]
    cases visitAll visit names state with
    | none => rfl
    | some out =>
        obtain ⟨result, after⟩ := out
        cases result with
        | error e => rfl
        | ok hashes => cases failure <;> simp [failAt]

end

end DeepJit
