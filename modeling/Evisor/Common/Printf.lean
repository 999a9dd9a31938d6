import Evisor.Common.NumberFormat
import Evisor.Lib.Run

/-!
# Formatted output

`vfprintf` of `common/cstdio/printf.cc`. The format is memory that ends with a zero; a read behind
it is a fault (`PrintfFault.pastEnd`), and so is an overflow of the field width, which is an `int`.
What is printed is kept together with the directive it is printed for.
-/

namespace Evisor

namespace Printf

/-- What stops `vfprintf`. -/
inductive PrintfFault where
  /-- The format is read behind the zero that ends it. -/
  | pastEnd
  /-- The field width does not fit into an `int`. -/
  | overflow
  /-- An argument is missing, or has another type. -/
  | noArgument
  /-- A number does not fit into the buffer. -/
  | bufferFull
  /-- A loop has used up the passes it was given. -/
  | outOfFuel
  deriving DecidableEq

/-- An argument. -/
inductive Arg where
  | int32 (v : BitVec 32)
  | int64 (v : BitVec 64)
  /-- The characters before the zero that ends a string. -/
  | str (s : List ℕ)

/-- The types of the arguments. -/
inductive ArgType where
  | int32 | int64 | str
  deriving DecidableEq

/-- The type of an argument. -/
def Arg.type : Arg → ArgType
  | .int32 _ => .int32
  | .int64 _ => .int64
  | .str _ => .str

/-! ### Reading the format -/

/-- `*(format++)`. -/
def next : List ℕ → Except PrintfFault (ℕ × List ℕ)
  | [] => .error .pastEnd
  | c :: format => .ok (c, format)

/-- `atoi`, which is `-1` for what is no digit. -/
def atoi (c : ℕ) : Option ℕ :=
  if '0'.toNat ≤ c ∧ c ≤ '9'.toNat then some (c - '0'.toNat)
  else if 'a'.toNat ≤ c ∧ c ≤ 'f'.toNat then some (c - 'a'.toNat + 10)
  else if 'A'.toNat ≤ c ∧ c ≤ 'F'.toNat then some (c - 'A'.toNat + 10)
  else none

/-- `kBase` of `parse_field_width`. -/
def kBase : ℕ := 10

/-- The greatest `int`. -/
def kIntMax : ℕ := 2 ^ 31 - 1

/-- The loop of `parse_field_width`, with the character looked at, what follows it, and the width so
far. The width is returned, the character at which the loop ends, and what follows that. -/
def parseFieldWidth (c : ℕ) (p : List ℕ) (res : ℕ) : Except PrintfFault (ℕ × ℕ × List ℕ) :=
  match atoi c with
  | none => .ok (res, c, p)
  | some digit =>
    if kBase < digit then .ok (res, c, p)
    else if kIntMax < res * kBase + digit then .error .overflow
    else
      match p with
      | [] => .error .pastEnd
      | c :: p => parseFieldWidth c p (res * kBase + digit)

/-- The local variables of `vfprintf`, when a directive has been read. -/
structure Directive where
  flag_zero : Bool
  field_width : ℕ
  precision_long : Bool
  c : ℕ
  deriving DecidableEq

/-- A letter is passed over if it is the one looked for. -/
def skip (letter : Char) (r : ℕ × List ℕ) : Except PrintfFault (ℕ × List ℕ) :=
  if r.1 = letter.toNat then next r.2 else .ok r

/-- The minimum field width, if there is one. -/
def fieldWidth (r : ℕ × List ℕ) : Except PrintfFault (ℕ × ℕ × List ℕ) :=
  if '0'.toNat ≤ r.1 ∧ r.1 ≤ '9'.toNat then parseFieldWidth r.1 r.2 0 else .ok (0, r)

/-- A directive is read, from behind the `%` on: flags, minimum field width, precision, type. -/
def parseDirective (format : List ℕ) : Except PrintfFault (Directive × List ℕ) :=
  (next format).bind fun first =>
    (skip '0' first).bind fun r =>
      (fieldWidth r).bind fun width =>
        (skip 'l' width.2).map fun last =>
          (⟨first.1 = '0'.toNat, width.1, width.2.1 = 'l'.toNat, last.1⟩, last.2)

/-! ### Printing an argument -/

/-- The branches of the `switch`. -/
inductive Conversion where
  | signed | unsigned | hex (upper_case : Bool) | char | string | percent | nothing
  deriving DecidableEq

/-- The branch for a character. -/
def conversion (c : ℕ) : Conversion :=
  if c = 'd'.toNat ∨ c = 'D'.toNat then .signed
  else if c = 'u'.toNat ∨ c = 'U'.toNat then .unsigned
  else if c = 'x'.toNat ∨ c = 'X'.toNat then .hex (c = 'X'.toNat)
  else if c = 'c'.toNat ∨ c = 'C'.toNat then .char
  else if c = 's'.toNat ∨ c = 'S'.toNat then .string
  else if c = '%'.toNat then .percent
  else .nothing

/-- The argument that is taken for a directive. -/
def Directive.takes (d : Directive) : Option ArgType :=
  match conversion d.c with
  | .signed | .unsigned | .hex _ => some (if d.precision_long then .int64 else .int32)
  | .char => some .int32
  | .string => some .str
  | .percent | .nothing => none

/-- `va_arg`. -/
def vaArg (type : Option ArgType) (va : List Arg) : Except PrintfFault (Option Arg × List Arg) :=
  match type, va with
  | none, va => .ok (none, va)
  | some _, [] => .error .noArgument
  | some type, arg :: va => if arg.type = type then .ok (some arg, va) else .error .noArgument

/-- `put_formatted_string`: the characters that it puts out. -/
def putFormattedString (field_width : ℕ) (flag_zero : Bool) (buf : List ℕ) : List ℕ :=
  let str := buf.takeWhile (· ≠ 0)
  List.replicate (field_width - str.length) (if flag_zero then '0'.toNat else ' '.toNat) ++ str

/-- The passes that writing a number takes at most. -/
def kDigitPasses : ℕ := 65

/-- A number is written into `buf`, and put out. -/
def putNumber (d : Directive) (str : Option (List ℕ)) : Except PrintfFault (List ℕ) :=
  match str with
  | none => .error .outOfFuel
  | some buf =>
    if buf.length ≤ kBufSize then .ok (putFormattedString d.field_width d.flag_zero buf)
    else .error .bufferFull

/-- The characters put out for a directive. -/
def convert (d : Directive) (arg : Option Arg) : Except PrintfFault (List ℕ) :=
  match conversion d.c, arg with
  | .signed, some (.int64 v) => putNumber d (litoa kDigitPasses v)
  | .signed, some (.int32 v) => putNumber d (itoa kDigitPasses v 10)
  | .unsigned, some (.int64 v) => putNumber d (ulitoa kDigitPasses v 10 false)
  | .unsigned, some (.int32 v) => putNumber d (uitoa kDigitPasses v 10 false)
  | .hex upper_case, some (.int64 v) => putNumber d (ulitoa kDigitPasses v 16 upper_case)
  | .hex upper_case, some (.int32 v) => putNumber d (uitoa kDigitPasses v 16 upper_case)
  | .char, some (.int32 v) => .ok [v.toNat % 256]
  | .string, some (.str s) => .ok (putFormattedString d.field_width false (s ++ [0]))
  | .percent, _ => .ok ['%'.toNat]
  | _, _ => .ok []

/-- What is put out: a character of the format, or the characters for a directive, which is kept
with what follows the `%` in the format and with its argument. -/
inductive Printed where
  | char (c : ℕ)
  | directive (format : List ℕ) (d : Directive) (arg : Option Arg) (text : List ℕ)

/-- `vfprintf`. -/
def vfprintf : ℕ → List ℕ → List Arg → Except PrintfFault (List Printed)
  | 0, _, _ => .error .outOfFuel
  | fuel + 1, format, va =>
    (next format).bind fun r =>
      if r.1 = 0 then .ok []
      else if r.1 ≠ '%'.toNat then (vfprintf fuel r.2 va).map (.char r.1 :: ·)
      else
        (parseDirective r.2).bind fun p =>
          (vaArg p.1.takes va).bind fun a =>
            (convert p.1 a.1).bind fun text =>
              (vfprintf fuel p.2 a.2).map (.directive r.2 p.1 a.1 text :: ·)

/-! ### What a directive says -/

/-- A decimal digit. -/
def isDigit (c : ℕ) : Bool := '0'.toNat ≤ c ∧ c ≤ '9'.toNat

/-- The value of a run of decimal digits, after a number. -/
def decimal (n : ℕ) (run : List ℕ) : ℕ := run.foldl (fun n c => n * 10 + (c - '0'.toNat)) n

/-- What follows an optional letter. -/
def after (letter : Char) (t : List ℕ) : List ℕ :=
  if t.head? = some letter.toNat then t.tail else t

/-- **The run of digits** behind the optional `0`. -/
def widthRun (t : List ℕ) : List ℕ := (after '0' t).takeWhile isDigit

/-- What follows the run. -/
def afterRun (t : List ℕ) : List ℕ := (after '0' t).dropWhile isDigit

/-- What follows the optional `l`: the letter for the type, unless the format ends before it. -/
def typeOf (t : List ℕ) : List ℕ := after 'l' (afterRun t)

/-- The directive that follows a `%`. -/
def directiveOf (t : List ℕ) : Directive where
  flag_zero := t.head? = some '0'.toNat
  field_width := decimal 0 (widthRun t)
  precision_long := (afterRun t).head? = some 'l'.toNat
  c := (typeOf t).headD 0

/-- What follows the directive. -/
def rest (t : List ℕ) : List ℕ := (typeOf t).tail

/-- **The width can be read**: it is an `int`, and no letter follows the run of digits that would be
taken for the digit ten. -/
structure WidthClean (t : List ℕ) : Prop where
  le_intMax : decimal 0 (widthRun t) ≤ kIntMax
  not_ten : widthRun t ≠ [] → ∀ c ∈ (afterRun t).head?, c ≠ 'a'.toNat ∧ c ≠ 'A'.toNat

variable {c res : ℕ} {p q t : List ℕ}

/-! ### Digits -/

theorem isDigit_iff : isDigit c = true ↔ 48 ≤ c ∧ c ≤ 57 := by
  simp [isDigit]

theorem atoi_of_isDigit (h : isDigit c = true) : atoi c = some (c - '0'.toNat) :=
  if_pos (of_decide_eq_true h)

/-- **What ends a run of digits**: a character that is no digit, or one for a digit above ten. -/
def Ends (c : ℕ) : Prop := ∀ digit ∈ atoi c, kBase < digit

/-- The letter for the digit ten is the only one that does not. -/
theorem ends_iff (h : isDigit c = false) : Ends c ↔ c ≠ 'a'.toNat ∧ c ≠ 'A'.toNat := by
  have hdigit : ¬('0'.toNat ≤ c ∧ c ≤ '9'.toNat) := of_decide_eq_false h
  rw [Ends, atoi, if_neg hdigit]
  simp only [Char.reduceToNat, kBase]
  split
  · simp only [Option.mem_def, Option.some.injEq, forall_eq']
    omega
  · split
    · simp only [Option.mem_def, Option.some.injEq, forall_eq']
      omega
    · simp only [Option.mem_def, reduceCtorEq, false_implies, implies_true, true_iff]
      omega

theorem le_decimal (n : ℕ) (run : List ℕ) : n ≤ decimal n run := by
  induction run generalizing n with
  | nil => exact le_rfl
  | cons c run ih =>
    have hstep := ih (n * 10 + (c - '0'.toNat))
    rw [decimal, List.foldl_cons]
    rw [decimal] at hstep
    omega

/-! ### The field width -/

/-- Where the run ends, the loop does. -/
theorem parseFieldWidth_of_ends (h : Ends c) : parseFieldWidth c p res = .ok (res, c, p) := by
  rw [parseFieldWidth.eq_def]
  rcases hatoi : atoi c with _ | digit
  · rfl
  · exact if_pos (h digit hatoi)

theorem exists_digit (h : ¬Ends c) : ∃ digit, atoi c = some digit ∧ digit ≤ kBase := by
  rw [Ends] at h
  rcases hatoi : atoi c with _ | digit
  · exact absurd (by simp [hatoi]) h
  · refine ⟨digit, rfl, Nat.le_of_not_lt fun hlt => h ?_⟩
    rintro d hd
    rw [hatoi] at hd
    rwa [← Option.some.inj hd]

/-- Nothing is read behind the end. -/
theorem parseFieldWidth_nil (h : ¬Ends c) (res : ℕ) :
    parseFieldWidth c [] res = .error .overflow ∨
      parseFieldWidth c [] res = .error .pastEnd := by
  obtain ⟨digit, hatoi, hdigit⟩ := exists_digit h
  rw [parseFieldWidth.eq_def]
  simp only [hatoi, if_neg (Nat.not_lt.mpr hdigit)]
  split
  · exact Or.inl rfl
  · exact Or.inr rfl

/-- One more character is taken for a digit. -/
theorem parseFieldWidth_cons {digit : ℕ} (h : atoi c = some digit) (hdigit : digit ≤ kBase)
    (x : ℕ) : parseFieldWidth c (x :: p) res =
      if kIntMax < res * kBase + digit then .error .overflow
      else parseFieldWidth x p (res * kBase + digit) := by
  rw [parseFieldWidth.eq_def]
  simp only [h, if_neg (Nat.not_lt.mpr hdigit)]

/-- The width never gets less. -/
theorem le_parseFieldWidth {r : ℕ × ℕ × List ℕ} (h : parseFieldWidth c p res = .ok r) :
    res ≤ r.1 := by
  induction p generalizing c res with
  | nil =>
    by_cases hends : Ends c
    · rw [parseFieldWidth_of_ends hends] at h
      rw [← Except.ok.inj h]
    · rcases parseFieldWidth_nil hends res with herror | herror
      · rw [herror] at h
        cases h
      · rw [herror] at h
        cases h
  | cons x p ih =>
    by_cases hends : Ends c
    · rw [parseFieldWidth_of_ends hends] at h
      rw [← Except.ok.inj h]
    · obtain ⟨digit, hatoi, hdigit⟩ := exists_digit hends
      rw [parseFieldWidth_cons hatoi hdigit] at h
      split at h
      · cases h
      · have hle := ih h
        rw [kBase] at hle
        omega

/-- A digit of the run is taken for what it is. -/
theorem parseFieldWidth_digit (h : isDigit c = true) (x : ℕ) : parseFieldWidth c (x :: p) res =
    if kIntMax < decimal res [c] then .error .overflow
    else parseFieldWidth x p (decimal res [c]) := by
  have hdigit : c - '0'.toNat ≤ kBase := by
    have hc := isDigit_iff.mp h
    simp only [Char.reduceToNat, kBase]
    omega
  exact parseFieldWidth_cons (atoi_of_isDigit h) hdigit x

/-- **A run of digits** is read to its end. -/
theorem parseFieldWidth_run (hends : Ends c) {run : List ℕ} {x : ℕ}
    (hrun : ∀ d ∈ x :: run, isDigit d = true) (hmax : decimal res (x :: run) ≤ kIntMax) :
    parseFieldWidth x (run ++ c :: p) res = .ok (decimal res (x :: run), c, p) := by
  have hx := hrun x List.mem_cons_self
  induction run generalizing x res with
  | nil =>
    rw [List.nil_append, parseFieldWidth_digit hx, if_neg (Nat.not_lt.mpr hmax)]
    exact parseFieldWidth_of_ends hends
  | cons y run ih =>
    have hfirst : decimal res [x] ≤ kIntMax := (le_decimal _ (y :: run)).trans hmax
    have hrest : ∀ d ∈ y :: run, isDigit d = true := fun d hd =>
      hrun d (List.mem_cons_of_mem _ hd)
    rw [List.cons_append, parseFieldWidth_digit hx, if_neg (Nat.not_lt.mpr hfirst)]
    exact ih hrest hmax (hrest y List.mem_cons_self)

/-- A character that is no decimal digit is taken for one of ten at least, if for one at all. -/
theorem ten_le_of_atoi {digit : ℕ} (h : isDigit c = false) (hatoi : atoi c = some digit) :
    10 ≤ digit := by
  have hdigit : ¬('0'.toNat ≤ c ∧ c ≤ '9'.toNat) := of_decide_eq_false h
  rw [atoi, if_neg hdigit] at hatoi
  split at hatoi
  · rw [← Option.some.inj hatoi]
    exact Nat.le_add_left _ _
  · split at hatoi
    · rw [← Option.some.inj hatoi]
      exact Nat.le_add_left _ _
    · cases hatoi

/-- **A width that is that of the run** has been read to the end of the run, and no further. -/
theorem ends_of_parseFieldWidth (hc : isDigit c = false) {run : List ℕ} {x : ℕ}
    (hrun : ∀ d ∈ x :: run, isDigit d = true) {r : ℕ × ℕ × List ℕ}
    (h : parseFieldWidth x (run ++ c :: p) res = .ok r) (hvalue : r.1 = decimal res (x :: run)) :
    Ends c ∧ decimal res (x :: run) ≤ kIntMax := by
  have hx := hrun x List.mem_cons_self
  induction run generalizing x res with
  | nil =>
    rw [List.nil_append, parseFieldWidth_digit hx] at h
    split at h
    · cases h
    case isFalse hmax =>
      refine ⟨by_contra fun hends => ?_, Nat.not_lt.mp hmax⟩
      rcases p with _ | ⟨y, p⟩
      · rcases parseFieldWidth_nil hends (decimal res [x]) with herror | herror
        · rw [herror] at h
          cases h
        · rw [herror] at h
          cases h
      · obtain ⟨digit, hatoi, hdigit⟩ := exists_digit hends
        rw [parseFieldWidth_cons hatoi hdigit] at h
        split at h
        · cases h
        · have hle := le_parseFieldWidth h
          have hten := ten_le_of_atoi hc hatoi
          rw [hvalue, kBase] at hle
          omega
  | cons y run ih =>
    have hrest : ∀ d ∈ y :: run, isDigit d = true := fun d hd =>
      hrun d (List.mem_cons_of_mem _ hd)
    rw [List.cons_append, parseFieldWidth_digit hx] at h
    split at h
    · cases h
    · exact ih hrest h hvalue (hrest y List.mem_cons_self)

/-! ### A directive -/

/-- What is read of a format that goes on with a zero. -/
theorem next_append (t : List ℕ) : next (t ++ [0]) = .ok (t.headD 0, (t ++ [0]).tail) := by
  rcases t with _ | ⟨x, t⟩
  · rfl
  · rfl

/-- **A letter that may be passed over** has been, if it was there. -/
theorem skip_next {letter : Char} (hletter : letter.toNat ≠ 0) (t : List ℕ) :
    skip letter (t.headD 0, (t ++ [0]).tail) = next (after letter t ++ [0]) := by
  rcases t with _ | ⟨x, t⟩
  · exact if_neg hletter.symm
  · by_cases hx : x = letter.toNat
    · rw [after, List.head?_cons, hx, if_pos rfl]
      exact if_pos rfl
    · rw [after, List.head?_cons, if_neg (fun h => hx (Option.some.inj h))]
      exact if_neg hx

/-- The first character behind a run is no digit. -/
theorem isDigit_afterRun (t : List ℕ) : isDigit ((afterRun t).headD 0) = false := by
  have hhead := List.head?_dropWhile_not isDigit (after '0' t)
  rw [← afterRun] at hhead
  rcases hrun : afterRun t with _ | ⟨x, q⟩
  · rfl
  · simpa [hrun] using hhead

/-- A run ends where it should when no letter follows that is taken for the digit ten. -/
theorem ends_afterRun (t : List ℕ) : Ends ((afterRun t).headD 0) ↔
    ∀ c ∈ (afterRun t).head?, c ≠ 'a'.toNat ∧ c ≠ 'A'.toNat := by
  rw [ends_iff (isDigit_afterRun t)]
  rcases afterRun t with _ | ⟨x, q⟩
  · simp
  · simp

/-- The format from the run on. -/
theorem after_append (t : List ℕ) : after '0' t ++ [0] =
    widthRun t ++ (afterRun t).headD 0 :: (afterRun t ++ [0]).tail := by
  have hsplit : widthRun t ++ afterRun t = after '0' t := List.takeWhile_append_dropWhile
  have hlast : afterRun t ++ [0] = (afterRun t).headD 0 :: (afterRun t ++ [0]).tail := by
    rcases afterRun t with _ | ⟨x, q⟩
    · rfl
    · rfl
  rw [← hsplit, List.append_assoc, hlast]
  rfl

theorem isDigit_of_mem_widthRun (t : List ℕ) : ∀ d ∈ widthRun t, isDigit d = true :=
  List.all_eq_true.mp List.all_takeWhile

/-- What the field width is read from. -/
def widthStart (t : List ℕ) : ℕ × List ℕ := ((after '0' t).headD 0, (after '0' t ++ [0]).tail)

/-- Without a run of digits there is no width. -/
theorem fieldWidth_of_nil (h : widthRun t = []) : fieldWidth (widthStart t) =
    .ok (0, (afterRun t).headD 0, (afterRun t ++ [0]).tail) := by
  have hstart : afterRun t = after '0' t := by
    have hsplit : widthRun t ++ afterRun t = after '0' t := List.takeWhile_append_dropWhile
    rwa [h] at hsplit
  have hdigit := isDigit_afterRun t
  rw [hstart] at hdigit ⊢
  exact if_neg (of_decide_eq_false hdigit)

/-- With a run of digits, its first digit is where the width begins. -/
theorem fieldWidth_of_cons {x : ℕ} {run : List ℕ} (h : widthRun t = x :: run) :
    fieldWidth (widthStart t) =
      parseFieldWidth x (run ++ (afterRun t).headD 0 :: (afterRun t ++ [0]).tail) 0 := by
  have hformat := after_append t
  rw [h] at hformat
  have hx : isDigit x = true := isDigit_of_mem_widthRun t x (h ▸ List.mem_cons_self)
  have hstart : widthStart t =
      (x, run ++ (afterRun t).headD 0 :: (afterRun t ++ [0]).tail) := by
    rcases hafter : after '0' t with _ | ⟨y, u⟩
    · rw [widthRun, hafter] at h
      cases h
    · rw [hafter] at hformat
      obtain ⟨rfl, htail⟩ := List.cons.inj hformat
      rw [widthStart, hafter]
      exact congrArg (Prod.mk y) htail
  rw [hstart]
  exact if_pos (of_decide_eq_true hx)

/-- **The width is read** when it can be. -/
theorem fieldWidth_eq (h : WidthClean t) : fieldWidth (widthStart t) =
    .ok (decimal 0 (widthRun t), (afterRun t).headD 0, (afterRun t ++ [0]).tail) := by
  rcases hrun : widthRun t with _ | ⟨x, run⟩
  · exact fieldWidth_of_nil hrun
  · have hends := (ends_afterRun t).mpr (h.not_ten (by simp [hrun]))
    have hdigits := isDigit_of_mem_widthRun t
    have hmax := h.le_intMax
    rw [hrun] at hdigits hmax
    rw [fieldWidth_of_cons hrun]
    exact parseFieldWidth_run hends hdigits hmax

/-- **A width that is right** has been read from a format from which it can be. -/
theorem widthClean_of_fieldWidth {r : ℕ × ℕ × List ℕ} (h : fieldWidth (widthStart t) = .ok r)
    (hvalue : r.1 = decimal 0 (widthRun t)) : WidthClean t := by
  rcases hrun : widthRun t with _ | ⟨x, run⟩
  · refine ⟨?_, fun hne => absurd hrun hne⟩
    rw [hrun]
    exact Nat.zero_le _
  · have hdigits := isDigit_of_mem_widthRun t
    rw [hrun] at hdigits hvalue
    rw [fieldWidth_of_cons hrun] at h
    obtain ⟨hends, hmax⟩ := ends_of_parseFieldWidth (isDigit_afterRun t) hdigits h hvalue
    exact ⟨hrun ▸ hmax, fun _ => (ends_afterRun t).mp hends⟩

/-- A letter is there when it comes first. -/
theorem headD_eq_iff (letter : Char) (hletter : letter.toNat ≠ 0) (t : List ℕ) :
    t.headD 0 = letter.toNat ↔ t.head? = some letter.toNat := by
  rcases t with _ | ⟨x, t⟩
  · simpa using hletter.symm
  · simp

/-- What is done with a directive once its width has been read. -/
theorem parseDirective_append (t : List ℕ) : parseDirective (t ++ [0]) =
    (fieldWidth (widthStart t)).bind fun width =>
      (skip 'l' width.2).map fun last =>
        (⟨t.headD 0 = '0'.toNat, width.1, width.2.1 = 'l'.toNat, last.1⟩, last.2) := by
  rw [parseDirective, next_append]
  simp only [Except.bind]
  rw [skip_next (by decide), next_append]
  rfl

/-- **A directive is read** when its width can be. -/
theorem parseDirective_eq (h : WidthClean t) :
    parseDirective (t ++ [0]) = .ok (directiveOf t, (typeOf t ++ [0]).tail) := by
  rw [parseDirective_append, fieldWidth_eq h]
  simp only [Except.bind]
  rw [skip_next (by decide), next_append]
  simp only [Except.map, directiveOf, headD_eq_iff '0' (by decide),
    headD_eq_iff 'l' (by decide)]
  rfl

/-- **A directive whose width is right** can be read. -/
theorem widthClean_of_parseDirective {r : Directive × List ℕ}
    (h : parseDirective (t ++ [0]) = .ok r) (hvalue : r.1.field_width = decimal 0 (widthRun t)) :
    WidthClean t := by
  rw [parseDirective_append] at h
  rcases hwidth : fieldWidth (widthStart t) with f | width
  · simp [hwidth, Except.bind] at h
  · rcases hskip : skip 'l' width.2 with f | last
    · simp [hwidth, hskip, Except.bind, Except.map] at h
    · simp only [hwidth, hskip, Except.bind, Except.map] at h
      obtain rfl := Except.ok.inj h
      exact widthClean_of_fieldWidth hwidth hvalue

/-! ### A number -/

/-- The signed number that an argument is. -/
def Arg.toInt : Arg → ℤ
  | .int32 v => v.toInt
  | .int64 v => v.toInt
  | .str _ => 0

/-- The unsigned number that an argument is. -/
def Arg.toNat : Arg → ℕ
  | .int32 v => v.toNat
  | .int64 v => v.toNat
  | .str _ => 0

/-- What a text is padded with. -/
def Directive.pad (d : Directive) : ℕ := if d.flag_zero then '0'.toNat else ' '.toNat

/-- **A number is printed**: its numeral, with the sign first, is padded on the left to the field
width, and if it is padded with zeros the whole denotes the number. -/
structure PrintsNumber (d : Directive) (base : ℕ) (z : ℤ) (text : List ℕ) : Prop where
  numeral : ∃ k s, text = List.replicate k d.pad ++ s ∧ Lib.IsSigned base s z
  width : d.field_width ≤ text.length
  zero : d.flag_zero = true → Lib.intOf base text = some z

/-- A text, padded to the field width. -/
def padded (d : Directive) (s : List ℕ) : List ℕ :=
  List.replicate (d.field_width - s.length) d.pad ++ s

variable {d : Directive} {base : ℕ} {z : ℤ} {s : List ℕ}

theorem putNumber_eq (hzero : 0 ∉ s) (hlen : s.length < kBufSize) :
    putNumber d (some (s ++ [0])) = .ok (padded d s) := by
  have hstr : (s ++ [0]).takeWhile (· ≠ 0) = s := by
    rw [List.takeWhile_append_of_pos]
    · simp
    · intro x hx
      exact decide_eq_true fun h => hzero (h ▸ hx)
  have hfits : (s ++ [0]).length ≤ kBufSize := by
    rw [List.length_append, List.length_singleton]
    exact hlen
  rw [putNumber]
  simp only [if_pos hfits, putFormattedString, hstr]
  rfl

/-- **A numeral is padded rightly** unless zeros are put before its sign. -/
theorem padded_prints (hs : Lib.IsSigned base s z) (hbase : 0 < base) :
    PrintsNumber d base z (padded d s) ↔
      (d.flag_zero = true → z < 0 → d.field_width ≤ s.length) := by
  have hwidth : d.field_width ≤ (padded d s).length := by
    rw [padded, List.length_append, List.length_replicate]
    omega
  constructor
  · intro h hflag hneg
    by_contra hlt
    obtain ⟨t, rfl, -⟩ := hs
    have hpad : d.pad = '0'.toNat := if_pos hflag
    have hzero := h.zero hflag
    rw [padded, hpad, if_pos hneg, Lib.intOf_zeros_sign] at hzero
    · cases hzero
    · rw [if_pos hneg] at hlt
      omega
  · intro h
    refine ⟨⟨_, s, rfl, hs⟩, hwidth, fun hflag => ?_⟩
    have hpad : d.pad = '0'.toNat := if_pos hflag
    rcases lt_or_ge z 0 with hneg | hpos
    · rw [padded, Nat.sub_eq_zero_of_le (h hflag hneg)]
      exact hs.intOf_eq
    · obtain ⟨t, rfl, ht⟩ := hs
      have hnat : (z.natAbs : ℤ) = z := by omega
      have hzeros : Lib.natOf base (List.replicate (d.field_width - t.length) '0'.toNat ++ t) =
          some z.natAbs :=
        (Lib.natOf_zeros hbase (Lib.ne_nil_of_natOf ht.denotes)).trans ht.denotes
      rw [padded, hpad, if_neg (Int.not_lt.mpr hpos), Lib.intOf_of_natOf hzeros, hnat]

/-! ### What is printed for an argument -/

/-- **What a directive prints is right**: a number, for those that print one. -/
def PrintsArg (d : Directive) (arg : Option Arg) (text : List ℕ) : Prop :=
  match conversion d.c, arg with
  | .signed, some a => PrintsNumber d 10 a.toInt text
  | .unsigned, some a => PrintsNumber d 10 a.toNat text
  | .hex _, some a => PrintsNumber d 16 a.toNat text
  | _, _ => True

/-- **No zeros come before a sign**: a negative number that is padded with zeros is as long as the
field. -/
def SignClean (d : Directive) (arg : Option Arg) : Prop :=
  conversion d.c = .signed → d.flag_zero = true →
    ∀ a ∈ arg, a.toInt < 0 → d.field_width ≤ Nat.log 10 a.toInt.natAbs + 2

/-- The number that is taken is of a type that has numbers. -/
theorem vaArg_eq_ok {type : ArgType} {va va' : List Arg} {arg : Option Arg}
    (h : vaArg (some type) va = .ok (arg, va')) : ∃ a, arg = some a ∧ a.type = type := by
  rcases va with _ | ⟨a, va⟩
  · cases h
  · rw [vaArg] at h
    split at h
    case isTrue htype =>
      obtain ⟨rfl, -⟩ := Prod.mk.inj (Except.ok.inj h)
      exact ⟨a, rfl, htype⟩
    · cases h

/-- A signed number is written. -/
theorem putNumber_signed {w : ℕ} {v : BitVec w} (hv : 2 ^ w ≤ 10 ^ 63) :
    putNumber d (some (signedNumeral 10 v.toInt ++ [0])) =
      .ok (padded d (signedNumeral 10 v.toInt)) := by
  have hsigned : Lib.IsSigned 10 (signedNumeral 10 v.toInt) v.toInt :=
    isSigned_signedNumeral (by decide) (by decide) _
  have hlt := Nat.lt_of_lt_of_le (natAbs_toInt_lt v) hv
  have hlen := length_signedNumeral_le hlt (by decide)
  exact putNumber_eq (hsigned.notMem (by decide) (by decide)) (Nat.lt_succ_of_le hlen)

/-- An unsigned number is written. -/
theorem putNumber_unsigned (hbase : 1 < base) (hbase' : base ≤ 16) {upper_case : Bool} {n : ℕ}
    (hn : n < 2 ^ 64) : putNumber d (some (numeral base upper_case n ++ [0])) =
      .ok (padded d (numeral base upper_case n)) := by
  have hnumeral : Lib.IsNumeral base (numeral base upper_case n) n :=
    isNumeral_numeral hbase hbase' n
  have hlen : (numeral base upper_case n).length ≤ 64 :=
    length_numeral_le (lt_pow hbase hn) (by decide)
  exact putNumber_eq (Lib.notMem_of_natOf hnumeral.denotes (by decide)) (Nat.lt_succ_of_le hlen)

/-- **A signed number is printed rightly** when no zeros come before its sign. -/
theorem prints_signed (z : ℤ) : PrintsNumber d 10 z (padded d (signedNumeral 10 z)) ↔
    (d.flag_zero = true → z < 0 → d.field_width ≤ Nat.log 10 z.natAbs + 2) := by
  rw [padded_prints (isSigned_signedNumeral (by decide) (by decide) z) (by decide)]
  refine imp_congr_right fun _ => imp_congr_right fun hneg => ?_
  rw [signedNumeral, if_pos hneg, List.length_cons, length_numeral]

/-- **An unsigned number** is always. -/
theorem prints_unsigned (hbase : 1 < base) (hbase' : base ≤ 16) {upper_case : Bool} (n : ℕ) :
    PrintsNumber d base n (padded d (numeral base upper_case n)) := by
  refine (padded_prints (isNumeral_numeral hbase hbase' n).isSigned
    (Nat.zero_lt_of_lt hbase)).mpr fun _ hneg => ?_
  omega

theorem convert_signed (hconv : conversion d.c = .signed) {a : Arg} (ha : a.type ≠ .str) :
    convert d (some a) = .ok (padded d (signedNumeral 10 a.toInt)) := by
  rcases a with v | v | str
  · have hitoa : itoa kDigitPasses v 10 = some (signedNumeral 10 v.toInt ++ [0]) :=
      itoa_eq (by decide) (by decide) v
    simp only [convert, hconv, hitoa]
    exact putNumber_signed (by decide)
  · have hlitoa : litoa kDigitPasses v = some (signedNumeral 10 v.toInt ++ [0]) :=
      litoa_eq (by decide) v
    simp only [convert, hconv, hlitoa]
    exact putNumber_signed (by decide)
  · exact absurd rfl ha

/-- The functions for unsigned numbers, on an argument. -/
theorem putNumber_toNat (hbase : 1 < base) (hbase' : base ≤ 16) (upper_case : Bool) :
    (∀ v : BitVec 32, putNumber d (uitoa kDigitPasses v base upper_case) =
      .ok (padded d (numeral base upper_case v.toNat))) ∧
    ∀ v : BitVec 64, putNumber d (ulitoa kDigitPasses v base upper_case) =
      .ok (padded d (numeral base upper_case v.toNat)) := by
  constructor
  · intro v
    rw [uitoa_eq hbase (by decide)]
    exact putNumber_unsigned hbase hbase' (Nat.lt_trans v.isLt (by decide))
  · intro v
    rw [ulitoa_eq hbase (by decide)]
    exact putNumber_unsigned hbase hbase' v.isLt

theorem convert_unsigned (hconv : conversion d.c = .unsigned) {a : Arg} (ha : a.type ≠ .str) :
    convert d (some a) = .ok (padded d (numeral 10 false a.toNat)) := by
  rcases a with v | v | str
  · simp only [convert, hconv]
    exact (putNumber_toNat (by decide) (by decide) false).1 v
  · simp only [convert, hconv]
    exact (putNumber_toNat (by decide) (by decide) false).2 v
  · exact absurd rfl ha

theorem convert_hex {upper_case : Bool} (hconv : conversion d.c = .hex upper_case) {a : Arg}
    (ha : a.type ≠ .str) :
    convert d (some a) = .ok (padded d (numeral 16 upper_case a.toNat)) := by
  rcases a with v | v | str
  · simp only [convert, hconv]
    exact (putNumber_toNat (by decide) (by decide) upper_case).1 v
  · simp only [convert, hconv]
    exact (putNumber_toNat (by decide) (by decide) upper_case).2 v
  · exact absurd rfl ha

/-- A directive for a number takes one. -/
theorem exists_number {va va' : List Arg} {arg : Option Arg}
    (htakes : d.takes = some (if d.precision_long then .int64 else .int32))
    (h : vaArg d.takes va = .ok (arg, va')) : ∃ a, arg = some a ∧ a.type ≠ .str := by
  rw [htakes] at h
  obtain ⟨a, rfl, htype⟩ := vaArg_eq_ok h
  refine ⟨a, rfl, ?_⟩
  rw [htype]
  split
  · decide
  · decide

/-- **An argument is printed**, and rightly when no zeros come before its sign. -/
theorem convert_prints {va va' : List Arg} {arg : Option Arg}
    (h : vaArg d.takes va = .ok (arg, va')) :
    ∃ text, convert d arg = .ok text ∧ (PrintsArg d arg text ↔ SignClean d arg) := by
  -- zeros that fill the field go before the sign, so that only a signed number can come out wrong
  rcases hconv : conversion d.c with _ | _ | upper_case | _ | _ | _ | _
  · obtain ⟨a, rfl, ha⟩ := exists_number (by rw [Directive.takes, hconv]) h
    refine ⟨_, convert_signed hconv ha, ?_⟩
    simp only [PrintsArg, SignClean, hconv, prints_signed]
    simp
  · obtain ⟨a, rfl, ha⟩ := exists_number (by rw [Directive.takes, hconv]) h
    refine ⟨_, convert_unsigned hconv ha, ?_⟩
    simp only [PrintsArg, SignClean, hconv]
    exact iff_of_true (prints_unsigned (by decide) (by decide) _) (by simp)
  · obtain ⟨a, rfl, ha⟩ := exists_number (by rw [Directive.takes, hconv]) h
    refine ⟨_, convert_hex hconv ha, ?_⟩
    simp only [PrintsArg, SignClean, hconv]
    exact iff_of_true (prints_unsigned (by decide) (by decide) _) (by simp)
  · have htakes : d.takes = some .int32 := by rw [Directive.takes, hconv]
    rw [htakes] at h
    obtain ⟨a, rfl, htype⟩ := vaArg_eq_ok h
    rcases a with v | v | str
    · refine ⟨[v.toNat % 256], by simp only [convert, hconv], ?_⟩
      simp [PrintsArg, SignClean, hconv]
    · cases htype
    · cases htype
  · have htakes : d.takes = some .str := by rw [Directive.takes, hconv]
    rw [htakes] at h
    obtain ⟨a, rfl, htype⟩ := vaArg_eq_ok h
    rcases a with v | v | str
    · cases htype
    · cases htype
    · refine ⟨putFormattedString d.field_width false (str ++ [0]),
        by simp only [convert, hconv], ?_⟩
      simp [PrintsArg, SignClean, hconv]
  · refine ⟨['%'.toNat], by simp only [convert, hconv], ?_⟩
    simp [PrintsArg, SignClean, hconv]
  · refine ⟨[], by simp only [convert, hconv], ?_⟩
    simp [PrintsArg, SignClean, hconv]

/-! ### A whole format -/

theorem after_suffix (letter : Char) (t : List ℕ) : after letter t <:+ t := by
  rw [after]
  split
  · exact List.tail_suffix t
  · exact List.suffix_rfl

/-- What follows a directive is part of the format. -/
theorem rest_suffix (t : List ℕ) : rest t <:+ t :=
  (List.tail_suffix _).trans ((after_suffix 'l' _).trans
    ((List.dropWhile_suffix _).trans (after_suffix '0' t)))

/-- **The directives of a format**, each with all that follows its `%`. -/
def directives : List ℕ → List (List ℕ)
  | [] => []
  | c :: t => if c = '%'.toNat then t :: directives (rest t) else directives t
termination_by t => t.length
decreasing_by
  · exact Nat.lt_succ_of_le (rest_suffix t).length_le
  · exact Nat.lt_succ_self _

/-- **The arguments of the directives**, if there are arguments of their types. -/
def assign : List (List ℕ) → List Arg → Except PrintfFault (List (List ℕ × Option Arg))
  | [], _ => .ok []
  | t :: ts, va => (vaArg (directiveOf t).takes va).bind fun a =>
      (assign ts a.2).map ((t, a.1) :: ·)

/-- **A directive is clean**: the format does not end in it, its width can be read, and it puts no
zeros before a sign. -/
structure Clean (t : List ℕ) (arg : Option Arg) : Prop where
  complete : typeOf t ≠ []
  width : WidthClean t
  sign : SignClean (directiveOf t) arg

/-- **A directive is carried out as it is written**: its width is that of the run of digits behind
the optional `0`, and what it prints is right. -/
def Printed.Faithful : Printed → Prop
  | .char _ => True
  | .directive format d arg text =>
    d.field_width = decimal 0 (widthRun format) ∧ PrintsArg d arg text

/-- **A format is printed faithfully**: `vfprintf` comes to the zero that ends it, and no further,
and carries out every directive as it is written. -/
def PrintsFaithfully (text : List ℕ) (va : List Arg) : Prop :=
  ∃ fuel out, vfprintf fuel (text ++ [0]) va = .ok out ∧ ∀ x ∈ out, x.Faithful

variable {text : List ℕ} {va va' : List Arg} {arg : Option Arg}

/-- The zero at the end is no part of a run of digits. -/
theorem widthRun_append (t : List ℕ) : widthRun (t ++ [0]) = widthRun t := by
  have hafter : after '0' (t ++ [0]) = after '0' t ++ [0] := by
    rcases t with _ | ⟨x, t⟩
    · rfl
    · rw [after, after]
      split
      case isTrue h =>
        rw [if_pos (by simpa using h)]
        rfl
      case isFalse h =>
        rw [if_neg (by simpa using h)]
  rw [widthRun, widthRun, hafter]
  induction after '0' t with
  | nil => rfl
  | cons x u ih => simp only [List.cons_append, List.takeWhile_cons, ih]

theorem vfprintf_char (fuel : ℕ) (hc : c ≠ '%'.toNat) (hzero : c ≠ 0) :
    vfprintf (fuel + 1) (c :: t ++ [0]) va =
      (vfprintf fuel (t ++ [0]) va).map (.char c :: ·) := by
  rw [vfprintf, List.cons_append, next]
  simp only [Except.bind, if_neg hzero, if_pos hc]

theorem vfprintf_directive (fuel : ℕ) : vfprintf (fuel + 1) ('%'.toNat :: t ++ [0]) va =
    (parseDirective (t ++ [0])).bind fun p =>
      (vaArg p.1.takes va).bind fun a =>
        (convert p.1 a.1).bind fun out =>
          (vfprintf fuel p.2 a.2).map (.directive (t ++ [0]) p.1 a.1 out :: ·) := by
  rw [vfprintf, List.cons_append, next]
  rfl

theorem faithful_nil (va : List Arg) : PrintsFaithfully [] va :=
  ⟨1, [], rfl, by simp⟩

/-- A character of the format is put out. -/
theorem faithful_char (hc : c ≠ '%'.toNat) (hzero : c ≠ 0) :
    PrintsFaithfully (c :: t) va ↔ PrintsFaithfully t va := by
  constructor
  · rintro ⟨fuel, out, hout, hfaithful⟩
    rcases fuel with _ | fuel
    · cases hout
    · rw [vfprintf_char fuel hc hzero] at hout
      rcases hrest : vfprintf fuel (t ++ [0]) va with f | out'
      · simp [hrest, Except.map] at hout
      · rw [hrest] at hout
        obtain rfl := Except.ok.inj hout
        exact ⟨fuel, out', hrest, fun x hx => hfaithful x (List.mem_cons_of_mem _ hx)⟩
  · rintro ⟨fuel, out, hout, hfaithful⟩
    refine ⟨fuel + 1, .char c :: out, ?_, fun x hx => ?_⟩
    · rw [vfprintf_char fuel hc hzero, hout]
      rfl
    · rcases List.mem_cons.mp hx with rfl | hmem
      · trivial
      · exact hfaithful x hmem

/-- Nothing is printed from behind the end. -/
theorem vfprintf_nil (fuel : ℕ) (out : List Printed) : vfprintf fuel [] va ≠ .ok out := by
  rcases fuel with _ | fuel
  · simp [vfprintf]
  · simp [vfprintf, next, Except.bind]

/-- **A clean directive is carried out**, and then what follows it. -/
theorem vfprintf_clean (fuel : ℕ) (hwidth : WidthClean t) (hcomplete : typeOf t ≠ [])
    (hva : vaArg (directiveOf t).takes va = .ok (arg, va')) {out : List ℕ}
    (hout : convert (directiveOf t) arg = .ok out) :
    vfprintf (fuel + 1) ('%'.toNat :: t ++ [0]) va = (vfprintf fuel (rest t ++ [0]) va').map
      (.directive (t ++ [0]) (directiveOf t) arg out :: ·) := by
  have hrest : (typeOf t ++ [0]).tail = rest t ++ [0] := List.tail_append_of_ne_nil hcomplete
  rw [vfprintf_directive, parseDirective_eq hwidth, hrest]
  simp only [Except.bind, hva, hout]

/-- **A directive that is carried out as it is written** is clean. -/
theorem clean_of_faithful (hva : vaArg (directiveOf t).takes va = .ok (arg, va'))
    (h : PrintsFaithfully ('%'.toNat :: t) va) : Clean t arg ∧ PrintsFaithfully (rest t) va' := by
  obtain ⟨fuel, out, hout, hfaithful⟩ := h
  rcases fuel with _ | fuel
  · cases hout
  rw [vfprintf_directive] at hout
  obtain ⟨p, hp, hout⟩ := Lib.bind_eq_ok.mp hout
  obtain ⟨a, ha, hout⟩ := Lib.bind_eq_ok.mp hout
  obtain ⟨printed, hprinted, hout⟩ := Lib.bind_eq_ok.mp hout
  rcases hlast : vfprintf fuel p.2 a.2 with f | out'
  · simp [hlast, Except.map] at hout
  rw [hlast] at hout
  obtain rfl := Except.ok.inj hout
  have hfirst := hfaithful _ List.mem_cons_self
  -- the width is that of the run, so the directive has been read as it is written
  have hwidth : WidthClean t :=
    widthClean_of_parseDirective hp (hfirst.1.trans (congrArg (decimal 0) (widthRun_append t)))
  obtain rfl := Except.ok.inj ((parseDirective_eq hwidth).symm.trans hp)
  obtain rfl := Except.ok.inj (hva.symm.trans ha)
  have hcomplete : typeOf t ≠ [] := by
    intro hnil
    rw [hnil] at hlast
    exact vfprintf_nil _ _ hlast
  obtain ⟨text, htext, hsign⟩ := convert_prints hva
  obtain rfl := Except.ok.inj (htext.symm.trans hprinted)
  have hrest : (typeOf t ++ [0]).tail = rest t ++ [0] := List.tail_append_of_ne_nil hcomplete
  rw [hrest] at hlast
  exact ⟨⟨hcomplete, hwidth, hsign.mp hfirst.2⟩, fuel, out', hlast,
    fun x hx => hfaithful x (List.mem_cons_of_mem _ hx)⟩

/-- **A directive** is carried out as it is written when it is clean. -/
theorem faithful_directive (hva : vaArg (directiveOf t).takes va = .ok (arg, va')) :
    PrintsFaithfully ('%'.toNat :: t) va ↔ Clean t arg ∧ PrintsFaithfully (rest t) va' := by
  refine ⟨clean_of_faithful hva, ?_⟩
  rintro ⟨hclean, fuel, out, hout, hfaithful⟩
  obtain ⟨text, htext, hsign⟩ := convert_prints hva
  have hrun := vfprintf_clean fuel hclean.width hclean.complete hva htext
  rw [hout] at hrun
  refine ⟨fuel + 1, _, hrun, fun x hx => ?_⟩
  rcases List.mem_cons.mp hx with rfl | hmem
  · exact ⟨congrArg (decimal 0) (widthRun_append t).symm, hsign.mpr hclean.sign⟩
  · exact hfaithful x hmem

/-- **A format is printed faithfully** exactly when its directives are clean: for every format
without a zero in it, and all arguments of the types that its directives take. -/
theorem vfprintf_faithful_iff {uses : List (List ℕ × Option Arg)} (htext : 0 ∉ text)
    (h : assign (directives text) va = .ok uses) :
    PrintsFaithfully text va ↔ ∀ x ∈ uses, Clean x.1 x.2 := by
  induction text using directives.induct generalizing va uses with
  | case1 =>
    rw [directives] at h
    obtain rfl := Except.ok.inj h
    exact iff_of_true (faithful_nil va) (by simp)
  | case2 t ih =>
    rw [directives, if_pos rfl, assign] at h
    obtain ⟨a, ha, h⟩ := Lib.bind_eq_ok.mp h
    rcases hrest : assign (directives (rest t)) a.2 with f | uses'
    · simp [hrest, Except.map] at h
    rw [hrest] at h
    obtain rfl := Except.ok.inj h
    have hzero : 0 ∉ rest t := fun hmem =>
      htext (List.mem_cons_of_mem _ ((rest_suffix t).subset hmem))
    rw [faithful_directive ha, ih hzero hrest, List.forall_mem_cons]
  | case3 c t hc ih =>
    rw [directives, if_neg hc] at h
    have hzero : c ≠ 0 := fun hzero => htext (hzero ▸ List.mem_cons_self)
    rw [faithful_char hc hzero]
    exact ih (fun hmem => htext (List.mem_cons_of_mem _ hmem)) h

/-- A format with one directive for a signed number, behind which it ends. -/
theorem assign_signed (width : List ℕ) (v : BitVec 32)
    (hrest : rest (width ++ ['d'.toNat]) = [])
    (htakes : (directiveOf (width ++ ['d'.toNat])).takes = some .int32) :
    assign (directives ('%'.toNat :: (width ++ ['d'.toNat]))) [.int32 v] =
      .ok [(width ++ ['d'.toNat], some (.int32 v))] := by
  rw [directives, if_pos rfl, hrest, directives, assign, htakes]
  rfl

/-- A number that is padded with zeros, and has no sign. -/
theorem printf_05d_42 : PrintsFaithfully ("%05d".toList.map Char.toNat) [.int32 42] := by
  refine (vfprintf_faithful_iff (by decide)
    (assign_signed ("05".toList.map Char.toNat) 42 rfl rfl)).mpr fun x hx => ?_
  obtain rfl := List.mem_singleton.mp hx
  refine ⟨by decide, ⟨by decide, by decide⟩, fun _ _ a ha hneg => ?_⟩
  obtain rfl := Option.some.inj ha
  exact absurd hneg (by decide)

/-- **A negative number that is padded with zeros** is printed with its sign among the digits. -/
theorem printf_05d_neg42 : ¬∀ (text : List ℕ) (va : List Arg), 0 ∉ text →
    (∃ uses, assign (directives text) va = .ok uses) → PrintsFaithfully text va := by
  intro h
  have hassign := assign_signed ("05".toList.map Char.toNat) (-42) rfl rfl
  have hfaithful := h ("%05d".toList.map Char.toNat) [.int32 (-42)] (by decide) ⟨_, hassign⟩
  have hva : vaArg (directiveOf ("05d".toList.map Char.toNat)).takes [.int32 (-42)] =
      .ok (some (.int32 (-42)), []) := rfl
  obtain ⟨hclean, -⟩ := clean_of_faithful hva hfaithful
  have hsign := hclean.sign rfl rfl (.int32 (-42)) rfl (by decide)
  exact absurd hsign (by decide)

end Printf

end Evisor
