import Microgarbage.Print.Format

/-!
# The argument scan of the guest library

Before a call of the formatter the guest counts the arguments that a format asks for and packs as
many. Its scan and the formatter of the host each have a parser of their own.
-/

namespace Microgarbage.Print

open Lib Vm List

/-- Why a scan has no result: it reads behind the terminator, or its rounds have run out. -/
inductive ScanStop where
  | past
  | rounds
  deriving DecidableEq

/-- `*p`; what is left of the string ends with its terminator. -/
def rd : List Byte → Except ScanStop Byte
  | [] => .error .past
  | b :: _ => .ok b

def skipWhile (set : Byte → Bool) : List Byte → Except ScanStop (List Byte)
  | [] => .error .past
  | b :: p => if set b then skipWhile set p else .ok (b :: p)

/-- A width or a precision: a `*` is an argument, digits are skipped. -/
def skipField (n : Nat) (p : List Byte) : Except ScanStop (Nat × List Byte) := do
  let b ← rd p
  if b = ch '*' then return (n + 1, p.tail)
  else return (n, ← skipWhile isDigit p)

def skipPrecision (n : Nat) (p : List Byte) : Except ScanStop (Nat × List Byte) := do
  let b ← rd p
  if b = ch '.' then skipField n p.tail
  else return (n, p)

/-- Flags, width, precision and length modifiers. -/
def skipSpec (n : Nat) (p : List Byte) : Except ScanStop (Nat × List Byte) := do
  let p ← skipWhile isFlag p
  let (n, p) ← skipField n p
  let (n, p) ← skipPrecision n p
  return (n, ← skipWhile isLength p)

def vmFmtMaxArgs : Nat := 16

/-- The loop of `count_format_args`, with a bound on its rounds. -/
def countLoop : Nat → List Byte → Nat → Except ScanStop Nat
  | 0, _, _ => .error .rounds
  | rounds + 1, p, n => do
    let b ← rd p
    if b = 0 then return n
    else if b ≠ ch '%' then countLoop rounds p.tail n
    else
      let p := p.tail
      let b ← rd p
      if b = ch '%' ∨ b = 0 then countLoop rounds p.tail n
      else
        let (n, p) ← skipSpec n p
        let b ← rd p
        if b = 0 then return n
        else
          let n := if takesArg b then n + 1 else n
          if vmFmtMaxArgs ≤ n then return vmFmtMaxArgs
          else countLoop rounds p.tail n

/-- `count_format_args` of a string with its terminator. -/
def countFormatArgs (rounds : Nat) (fmt : List Byte) : Except ScanStop Nat :=
  countLoop rounds (fmt ++ [0]) 0

/-! ## What a format asks for -/

def Field.stars : Field → Nat
  | .star => 1
  | .number _ => 0

/-- The `*` of a specification. -/
def Directive.stars (d : Directive) : Nat :=
  d.width.stars + match d.precision with
    | none => 0
    | some f => f.stars

/-- What is left in front of the conversion character. -/
def beforeConv (p : List Byte) : List Byte :=
  (parsePrecision (parseField (p.dropWhile isFlag)).2).2.dropWhile isLength

theorem parseDirective_snd (p : List Byte) : (parseDirective p).2 = (beforeConv p).tail := rfl

theorem parseDirective_conv (p : List Byte) : (parseDirective p).1.conv = (beforeConv p).head? := rfl

theorem parseField_suffix (p : List Byte) : (parseField p).2 <:+ p := by
  unfold parseField
  split
  · exact tail_suffix p
  · exact dropWhile_suffix isDigit

theorem parsePrecision_suffix (p : List Byte) : (parsePrecision p).2 <:+ p := by
  unfold parsePrecision
  split
  · exact (parseField_suffix p.tail).trans (tail_suffix p)
  · exact suffix_refl p

theorem beforeConv_suffix (p : List Byte) : beforeConv p <:+ p :=
  (dropWhile_suffix isLength).trans <| (parsePrecision_suffix _).trans <|
    (parseField_suffix _).trans (dropWhile_suffix isFlag)

theorem parseDirective_rest (p : List Byte) : (parseDirective p).2.length ≤ p.length :=
  ((tail_suffix _).trans (beforeConv_suffix p)).length_le

/-- The arguments of the complete specifications of a format, and what stands behind a last `%` that
the end of the format cuts off. -/
def asksFor : List Byte → Nat × Option (List Byte)
  | [] => (0, none)
  | b :: rest =>
    if b ≠ ch '%' then asksFor rest
    else
      have := parseDirective_rest rest
      match (parseDirective rest).1.conv with
      | none => ((0, some rest) : Nat × Option (List Byte))
      | some conv =>
        let (n, cut) := asksFor (parseDirective rest).2
        ((parseDirective rest).1.stars + (if takesArg conv then 1 else 0) + n, cut)
termination_by p => p.length

/-- The `*` of a specification that is cut off. -/
def cutStars : Option (List Byte) → Nat
  | none => 0
  | some rest => (parseDirective rest).1.stars

/-! ## The parser of the guest -/

section

variable {p : List Byte} {n : Nat}

theorem skipWhile_append {set : Byte → Bool} (hset : set 0 = false) (p : List Byte) :
    skipWhile set (p ++ [0]) = .ok (p.dropWhile set ++ [0]) := by
  induction p with
  | nil =>
    rw [nil_append, skipWhile, hset]
    rfl
  | cons b p ih =>
    rw [cons_append, skipWhile, ih]
    cases h : set b <;> simp [h]

theorem rd_append (p : List Byte) : rd (p ++ [0]) = .ok (p.headD 0) := by
  cases p <;> rfl

theorem skipField_append (n : Nat) (p : List Byte) :
    skipField n (p ++ [0]) = .ok (n + (parseField p).1.stars, (parseField p).2 ++ [0]) := by
  unfold skipField parseField
  rw [rd_append, skipWhile_append (by decide)]
  cases p with
  | nil => rfl
  | cons b p =>
    by_cases h : b = ch '*'
    · subst h
      rfl
    · simp [h, bind, Except.bind, pure, Except.pure, Field.stars]

theorem skipPrecision_append (n : Nat) (p : List Byte) :
    skipPrecision n (p ++ [0]) =
      .ok (n + (match (parsePrecision p).1 with | none => 0 | some f => f.stars),
        (parsePrecision p).2 ++ [0]) := by
  unfold skipPrecision parsePrecision
  rw [rd_append]
  cases p with
  | nil => rfl
  | cons b p =>
    by_cases h : b = ch '.'
    · subst h
      exact skipField_append n p
    · simp [h, bind, Except.bind, pure, Except.pure]

theorem skipSpec_append (n : Nat) (p : List Byte) :
    skipSpec n (p ++ [0]) = .ok (n + (parseDirective p).1.stars, beforeConv p ++ [0]) := by
  unfold skipSpec
  simp only [skipWhile_append (by decide : isFlag 0 = false), bind, Except.bind, skipField_append,
    skipPrecision_append, skipWhile_append (by decide : isLength 0 = false), Nat.add_assoc]
  rfl

theorem beforeConv_percent (p : List Byte) : beforeConv (ch '%' :: p) = ch '%' :: p := by
  simp [beforeConv, parseField, parsePrecision, isFlag, isDigit, isLength, ch]

theorem parseDirective_percent (p : List Byte) :
    parseDirective (ch '%' :: p) = (⟨.none, .number [], none, [], some (ch '%')⟩, p) := by
  simp [parseDirective, parseField, parsePrecision, isFlag, isDigit, isLength, ch]

/-! ## The scan -/

theorem asksFor_text {b : Byte} (h : b ≠ ch '%') : asksFor (b :: p) = asksFor p := by
  rw [asksFor, if_pos h]

theorem asksFor_cut (h : (beforeConv p).head? = none) : asksFor (ch '%' :: p) = (0, some p) := by
  rw [asksFor, if_neg (by simp)]
  dsimp only
  rw [parseDirective_conv, h]

theorem asksFor_directive {c : Byte} (h : (beforeConv p).head? = some c) :
    asksFor (ch '%' :: p) = ((parseDirective p).1.stars + (if takesArg c then 1 else 0) +
      (asksFor (beforeConv p).tail).1, (asksFor (beforeConv p).tail).2) := by
  rw [asksFor, if_neg (by simp)]
  dsimp only
  rw [parseDirective_conv, h]
  rfl

/-- What the scan returns from a place on, where `n` arguments are counted. -/
def scanned (n : Nat) (asked : Nat × Option (List Byte)) : Except ScanStop Nat :=
  if vmFmtMaxArgs ≤ n + asked.1 then .ok vmFmtMaxArgs
  else if asked.2 = some [] then .error .past
  else .ok (n + asked.1 + cutStars asked.2)

theorem countLoop_directive (rounds n : Nat) {b : Byte} (hb : b ≠ ch '%') (hz : b ≠ 0) :
    countLoop (rounds + 1) (ch '%' :: b :: p ++ [0]) n =
      match beforeConv (b :: p) with
      | [] => .ok (n + (parseDirective (b :: p)).1.stars)
      | c :: rest =>
        if c = 0 then .ok (n + (parseDirective (b :: p)).1.stars)
        else if vmFmtMaxArgs ≤ n + (parseDirective (b :: p)).1.stars + (if takesArg c then 1 else 0)
        then .ok vmFmtMaxArgs
        else countLoop rounds (rest ++ [0])
          (n + (parseDirective (b :: p)).1.stars + (if takesArg c then 1 else 0)) := by
  have hspec := skipSpec_append n (b :: p)
  rw [countLoop]
  simp only [cons_append, rd, tail_cons, bind, Except.bind] at hspec ⊢
  rw [if_neg (by decide), if_neg (by simp), if_neg (not_or.mpr ⟨hb, hz⟩), hspec]
  cases beforeConv (b :: p) with
  | nil => rfl
  | cons c rest => cases htakes : takesArg c <;> simp only [cons_append, htakes] <;> rfl

theorem countLoop_eq (rounds : Nat) (hz : ∀ b ∈ p, b ≠ 0) (hn : n < vmFmtMaxArgs) :
    countLoop rounds (p ++ [0]) n = .error .rounds ∧ rounds < p.length + 2 ∨
      countLoop rounds (p ++ [0]) n = scanned n (asksFor p) := by
  induction rounds generalizing p n with
  | zero => exact .inl ⟨rfl, by omega⟩
  | succ rounds ih =>
    match p with
    | [] =>
      right
      rw [asksFor, scanned, if_neg (by simpa using hn), if_neg (by simp)]
      rfl
    | b :: p =>
      rw [forall_mem_cons] at hz
      by_cases hb : b = ch '%'
      · subst hb
        match p with
        | [] =>
          -- the scan steps over the terminator
          have hasks : asksFor [ch '%'] = (0, some []) := asksFor_cut rfl
          have hpast : scanned n (0, some []) = .error .past := by
            rw [scanned, if_neg (by omega), if_pos rfl]
          rw [hasks, hpast]
          cases rounds with
          | zero => exact .inl ⟨rfl, by simp⟩
          | succ rounds => exact .inr rfl
        | b :: p =>
          rw [forall_mem_cons] at hz
          by_cases hb : b = ch '%'
          · subst hb
            have hasks : asksFor (ch '%' :: ch '%' :: p) = asksFor p := by
              rw [asksFor_directive (c := ch '%') (by rw [beforeConv_percent]; rfl),
                beforeConv_percent, parseDirective_percent]
              simp [Directive.stars, Field.stars, takesArg, ch]
            have hstep : countLoop (rounds + 1) (ch '%' :: ch '%' :: p ++ [0]) n =
                countLoop rounds (p ++ [0]) n := by
              rw [countLoop]
              rfl
            rw [hasks, hstep]
            refine (ih hz.2.2 hn).imp_left fun h => ⟨h.1, ?_⟩
            have := h.2
            simp only [length_cons]
            omega
          · rw [countLoop_directive rounds n hb hz.2.1]
            cases hconv : beforeConv (b :: p) with
            | nil =>
              right
              rw [asksFor_cut (by rw [hconv]; rfl), scanned, if_neg (by omega), if_neg (by simp)]
              rfl
            | cons c rest =>
              have hsuffix := beforeConv_suffix (b :: p)
              rw [hconv] at hsuffix
              have hmem : ∀ x ∈ c :: rest, x ≠ 0 := fun x hx =>
                (forall_mem_cons (p := (· ≠ 0))).mpr hz.2 x (hsuffix.subset hx)
              rw [forall_mem_cons] at hmem
              rw [asksFor_directive (c := c) (by rw [hconv]; rfl), hconv]
              dsimp only [tail_cons]
              rw [if_neg hmem.1]
              by_cases hfull : vmFmtMaxArgs ≤
                  n + (parseDirective (b :: p)).1.stars + (if takesArg c then 1 else 0)
              · right
                rw [if_pos hfull, scanned, if_pos (by dsimp only; omega)]
              · rw [if_neg hfull]
                have hlen := hsuffix.length_le
                refine (ih hmem.2 (by omega)).imp (fun h => ⟨h.1, ?_⟩) fun h => h.trans ?_
                · have := h.2
                  simp only [length_cons] at hlen ⊢
                  omega
                · unfold scanned
                  simp only [Nat.add_assoc]
      · have hstep : countLoop (rounds + 1) (b :: p ++ [0]) n = countLoop rounds (p ++ [0]) n := by
          rw [countLoop]
          simp only [cons_append, rd, tail_cons, bind, Except.bind]
          rw [if_neg hz.1, if_pos hb]
        rw [hstep, asksFor_text hb]
        refine (ih hz.2 hn).imp_left fun h => ⟨h.1, ?_⟩
        have := h.2
        simp only [length_cons]
        omega

/-! ## The arguments that the host takes -/

theorem fields_args (d : Directive) (args : List Word) : (d.fields args).2.2 = args.drop d.stars := by
  obtain ⟨flags, width, precision, lengths, conv⟩ := d
  cases width <;> rcases precision with - | (- | -) <;>
    simp [Directive.fields, Field.value, Directive.stars, Field.stars, drop_drop, ← drop_one]

variable {σ : Type} (k : Sink σ)

theorem formatDirective_args (d : Directive) (conv : Byte) (width precision : Int)
    (args : List Word) (s : FmtSink σ) :
    (formatDirective k d conv width precision args s).2 =
      args.drop (if takesArg conv then 1 else 0) := by
  unfold formatDirective
  by_cases hconv : conv = ch '%'
  · subst hconv
    rfl
  · rw [if_neg hconv]
    cases takesArg conv with
    | true => cases args <;> rfl
    | false => rfl

theorem asksFor_dropWhile (p : List Byte) : asksFor (p.dropWhile (· != ch '%')) = asksFor p := by
  induction p with
  | nil => rfl
  | cons b p ih =>
    by_cases hb : b = ch '%'
    · subst hb
      rfl
    · rw [dropWhile_cons_of_pos (by simpa using hb), ih, asksFor_text hb]

/-- The host takes the arguments of the specifications in order, those of a last one that is cut
off included. -/
theorem formatLoop_args {rounds : Nat} (hrounds : p.length ≤ rounds) (args : List Word)
    (s : FmtSink σ) :
    (formatLoop k rounds p args s).2 = args.drop ((asksFor p).1 + cutStars (asksFor p).2) := by
  induction rounds generalizing p args s with
  | zero =>
    obtain rfl : p = [] := eq_nil_of_length_eq_zero (by omega)
    rw [asksFor]
    rfl
  | succ rounds ih =>
    match p with
    | [] =>
      rw [asksFor]
      rfl
    | b :: p =>
      rw [length_cons] at hrounds
      by_cases hb : b = ch '%'
      · subst hb
        have hstars := fields_args (parseDirective p).1 args
        rw [formatLoop, if_neg (by simp)]
        dsimp only
        rw [parseDirective_conv]
        cases hconv : (beforeConv p).head? with
        | none =>
          rw [asksFor_cut hconv]
          dsimp only
          rw [hstars, Nat.zero_add]
          rfl
        | some c =>
          have hrest := parseDirective_rest p
          rw [asksFor_directive hconv]
          dsimp only
          rw [ih (by omega), formatDirective_args, hstars, drop_drop, drop_drop,
            parseDirective_snd]
          congr 1
          omega
      · have hshort := (dropWhile_suffix (· != ch '%') (l := p)).length_le
        rw [formatLoop, if_pos hb, ih, asksFor_dropWhile]
        rw [dropWhile_cons_of_pos (by simpa using hb)]
        omega

/-! ## Scan and formatter -/

/-- The formatter takes the first `n` arguments of a call. -/
def HostTakes (fmt : List Byte) (n : Nat) : Prop :=
  ∀ (σ : Type) (k : Sink σ) (args : List Word) (s : FmtSink σ),
    (formatVa k fmt args s).2 = args.drop n

/-- The scan ends inside the string, with as many arguments as the formatter takes, up to the limit. -/
def ScanAgrees (fmt : List Byte) : Prop :=
  ∃ n rounds, HostTakes fmt n ∧ countFormatArgs rounds fmt = .ok (min n vmFmtMaxArgs)

theorem hostTakes_asksFor (fmt : List Byte) :
    HostTakes fmt ((asksFor fmt).1 + cutStars (asksFor fmt).2) :=
  fun _ k args s => formatLoop_args k (Nat.le_refl _) args s

theorem HostTakes.unique {fmt : List Byte} {m : Nat} (h : HostTakes fmt n) (h' : HostTakes fmt m) :
    m = n := by
  let k : Sink Unit := ⟨fun _ _ => (true, ()), fun _ _ => none⟩
  have heq := (h Unit k (List.replicate (m + n) 0) ⟨(), 0, false⟩).symm.trans
    (h' Unit k (List.replicate (m + n) 0) ⟨(), 0, false⟩)
  have hlen := congrArg List.length heq
  simp only [length_drop, length_replicate] at hlen
  omega

theorem cutStars_le (cut : Option (List Byte)) : cutStars cut ≤ 2 := by
  have hfield : ∀ f : Field, f.stars ≤ 1 := by
    intro f
    cases f with
    | star => exact Nat.le_refl 1
    | number => exact Nat.zero_le 1
  cases cut with
  | none => exact Nat.zero_le 2
  | some rest =>
    have hwidth := hfield (parseDirective rest).1.width
    unfold cutStars Directive.stars
    dsimp only
    split
    · omega
    · next f _ =>
      have hprecision := hfield f
      omega

/-- Scan and formatter agree unless the scan comes to a `%` at the very end with fewer than sixteen
arguments, or to a cut off specification with two `*` behind fifteen. -/
theorem scanAgrees_iff (fmt : List Byte) (hz : ∀ b ∈ fmt, b ≠ 0) :
    ScanAgrees fmt ↔
      ¬ ((asksFor fmt).1 < vmFmtMaxArgs ∧ (asksFor fmt).2 = some []) ∧
        ¬ ((asksFor fmt).1 = 15 ∧ cutStars (asksFor fmt).2 = 2) := by
  have htakes := hostTakes_asksFor fmt
  have hscan : ∀ rounds n, countFormatArgs rounds fmt = .ok n → scanned 0 (asksFor fmt) = .ok n := by
    intro rounds n h
    rcases countLoop_eq (n := 0) rounds hz (by decide) with ⟨hstop, -⟩ | heq
    · cases hstop.symm.trans h
    · exact heq.symm.trans h
  have hends : countFormatArgs (fmt.length + 2) fmt = scanned 0 (asksFor fmt) := by
    rcases countLoop_eq (n := 0) (fmt.length + 2) hz (by decide) with ⟨-, hlt⟩ | heq
    · omega
    · exact heq
  have hstars := cutStars_le (asksFor fmt).2
  unfold scanned at hscan hends
  rw [Nat.zero_add] at hscan hends
  constructor
  · rintro ⟨n, rounds, hn, h⟩
    obtain rfl := hn.unique htakes
    have hvalue := hscan rounds _ h
    refine ⟨fun hlone => ?_, fun hfifteen => ?_⟩
    · rw [if_neg (by omega), if_pos hlone.2] at hvalue
      cases hvalue
    · rw [if_neg (by unfold vmFmtMaxArgs; omega), if_neg] at hvalue
      · have := Except.ok.inj hvalue
        unfold vmFmtMaxArgs at this
        omega
      · intro hnil
        have := hfifteen.2
        rw [hnil] at this
        revert this
        decide
  · rintro ⟨hlone, hfifteen⟩
    refine ⟨_, fmt.length + 2, htakes, hends.trans ?_⟩
    by_cases hfull : vmFmtMaxArgs ≤ (asksFor fmt).1
    · rw [if_pos hfull, Nat.min_eq_right (by omega)]
    · rw [if_neg hfull, if_neg fun hnil => hlone ⟨by omega, hnil⟩, Nat.min_eq_left]
      unfold vmFmtMaxArgs at hfull ⊢
      by_contra hmore
      exact hfifteen ⟨by omega, by omega⟩

/-- A format with a starred width. -/
theorem scanAgrees_starred : ScanAgrees [ch '%', ch '*', ch 'd'] := by
  have hasks : asksFor [ch '%', ch '*', ch 'd'] = (2, none) := by
    rw [asksFor_directive (c := ch 'd') rfl, show (beforeConv [ch '*', ch 'd']).tail = [] from rfl,
      asksFor]
    rfl
  refine (scanAgrees_iff [ch '%', ch '*', ch 'd'] (by decide)).mpr ?_
  rw [hasks]
  decide

/-- The scan of a lone `%` steps over the terminator. -/
theorem lone_percent_past : ¬ ScanAgrees [ch '%'] := by
  rintro ⟨n, rounds, -, h⟩
  match rounds, h with
  | 0, h => cases h
  | 1, h => cases h
  | rounds + 2, h => cases h

end

end Microgarbage.Print
