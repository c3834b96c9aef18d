import Reyao.Log

/-!
# What the appenders of the log do with a line

`printf` prints a format as it is just when there is no `%` in it: a `%` is printed for
two of them only, so a text with one can never come out whole (`printf_eq_self_iff`). The
console then shows the line that is handed to the file for the patterns and records that
put no `%` in the line, and no others (`appenders_agree_iff`).
-/

namespace Reyao

/-- A text without `%` and NUL, which `printf` prints as it is. -/
def Clean (s : Bytes) : Prop := (37 : UInt8) ∉ s ∧ (0 : UInt8) ∉ s

instance (s : Bytes) : Decidable (Clean s) :=
  inferInstanceAs (Decidable ((37 : UInt8) ∉ s ∧ (0 : UInt8) ∉ s))

theorem clean_append (s t : Bytes) : Clean (s ++ t) ↔ Clean s ∧ Clean t := by
  simp only [Clean, List.mem_append, not_or]
  exact and_and_and_comm

theorem clean_of_forall {s : Bytes} (other : ∀ c ∈ s, c ≠ 37 ∧ c ≠ 0) : Clean s :=
  ⟨fun member => (other 37 member).1 rfl, fun member => (other 0 member).2 rfl⟩

theorem clean_replicate (n : Nat) {c : UInt8} (other : c ≠ 37 ∧ c ≠ 0) :
    Clean (List.replicate n c) := by
  refine clean_of_forall fun d member => ?_
  rw [List.eq_of_mem_replicate member]
  exact other

theorem clean_showNat (n : Nat) : Clean (showNat n) :=
  clean_of_forall fun c member => by
    have digit := showNat_digit member
    constructor
    · rintro rfl
      exact absurd digit (by decide)
    · rintro rfl
      exact absurd digit (by decide)

/-! ## Conversions -/

namespace Conversion

theorem base_bounds (kind : IntConversion) : 1 < base kind ∧ base kind ≤ 16 := by
  cases kind with
  | signed => decide
  | unsigned => decide
  | octal => decide
  | hex upper => exact ⟨by rw [base]; decide, by rw [base]⟩

theorem clean_digits (conv : Conversion) (n : Nat) : Clean (conv.digits n) := by
  rw [digits, clean_append]
  refine ⟨clean_replicate _ (by decide), clean_of_forall fun c member => ?_⟩
  obtain ⟨d, inside, rfl⟩ := List.mem_map.mp member
  have small : d < 16 := lt_of_lt_of_le
    (Nat.digits_lt_base (base_bounds conv.kind).1 (List.mem_reverse.mp inside))
    (base_bounds conv.kind).2
  have visible : ∀ kind : IntConversion, ∀ d < 16, digit kind d ≠ 37 ∧ digit kind d ≠ 0 := by
    intro kind
    cases kind with
    | signed => decide
    | unsigned => decide
    | octal => decide
    | hex upper => cases upper <;> decide
  exact visible conv.kind d small

theorem clean_sign (conv : Conversion) (n : Nat) : Clean (conv.sign n) := by
  rw [sign]
  split
  · split
    · decide
    · split <;> decide
  · decide
  · split <;> decide
  · rename_i upper _
    split
    · cases upper <;> decide
    · decide

theorem clean_text (conv : Conversion) (n : Nat) : Clean (conv.text n) := by
  have sign := conv.clean_sign n
  have digits := conv.clean_digits n
  simp only [text]
  split
  · simp only [clean_append]
    exact ⟨⟨sign, digits⟩, clean_replicate _ (by decide)⟩
  · split
    · simp only [clean_append]
      exact ⟨⟨sign, clean_replicate _ (by decide)⟩, digits⟩
    · simp only [clean_append]
      exact ⟨⟨clean_replicate _ (by decide), sign⟩, digits⟩

/-- A number that is not zero has a digit. -/
theorem text_ne_nil (conv : Conversion) {n : Nat} (nonzero : n ≠ 0) : conv.text n ≠ [] := by
  have some_digit : conv.digits n ≠ [] := by
    rw [digits]
    intro empty
    rw [List.append_eq_nil_iff, List.map_eq_nil_iff, List.reverse_eq_nil_iff] at empty
    exact Nat.digits_ne_nil_iff_ne_zero.mpr nonzero empty.2
  simp only [text]
  split
  · simp [some_digit]
  · split
    · simp [some_digit]
    · simp [some_digit]

theorem parseEnd_suffix {flags s rest : Bytes} {width : Nat} {precision : Option Nat}
    {conv : Conversion} (parsed : parseEnd flags width precision s = some (conv, rest)) :
    rest <:+ s := by
  rcases s with _ | ⟨modifier, _ | ⟨c, s⟩⟩
  · cases parsed
  · cases parsed
  · rw [parseEnd] at parsed
    split at parsed
    · obtain ⟨kind, -, parsed⟩ := Option.bind_eq_some_iff.mp parsed
      split at parsed
      · cases parsed
      · cases parsed
        exact ⟨[modifier, c], rfl⟩
    · cases parsed

/-- What follows a specification is the end of the text. -/
theorem parse_suffix {s rest : Bytes} {conv : Conversion} (parsed : parse s = some (conv, rest)) :
    rest <:+ s := by
  have front : (s.dropWhile isFlag).dropWhile isdigit <:+ s :=
    (List.dropWhile_suffix _).trans (List.dropWhile_suffix _)
  rw [parse] at parsed
  split at parsed
  · exact (parseEnd_suffix parsed).trans
      ((List.dropWhile_suffix _).trans ((List.tail_suffix _).trans front))
  · exact (parseEnd_suffix parsed).trans front

end Conversion

/-! ## Formats -/

theorem printfLoop_plain {fuel : Nat} {fmt : Bytes} (enough : fmt.length < fuel)
    (plain : (37 : UInt8) ∉ fmt) (arg : Option Nat) : printfLoop fuel fmt arg = some fmt := by
  induction fmt generalizing fuel with
  | nil =>
      obtain ⟨k, rfl⟩ : ∃ k, fuel = k + 1 := ⟨fuel - 1, by omega⟩
      rfl
  | cons c fmt ih =>
      obtain ⟨k, rfl⟩ : ∃ k, fuel = k + 1 := ⟨fuel - 1, by omega⟩
      rw [List.length_cons] at enough
      rw [List.mem_cons, not_or] at plain
      rw [printfLoop, if_pos (Ne.symm plain.1), ih (by omega) plain.2]
      rfl

/-- Nothing that `printf` prints is a NUL, if there is none in the format. -/
theorem printfLoop_no_nul {fuel : Nat} {fmt out : Bytes} {arg : Option Nat}
    (printed : printfLoop fuel fmt arg = some out) (plain : (0 : UInt8) ∉ fmt) :
    (0 : UInt8) ∉ out := by
  induction fuel generalizing fmt arg out with
  | zero =>
      cases printed
      exact List.not_mem_nil
  | succ fuel ih =>
      cases fmt with
      | nil =>
          cases printed
          exact List.not_mem_nil
      | cons c rest =>
          rw [List.mem_cons, not_or] at plain
          rw [printfLoop] at printed
          split at printed
          · obtain ⟨later, next, rfl⟩ := Option.map_eq_some_iff.mp printed
            rw [List.mem_cons, not_or]
            exact ⟨plain.1, ih next plain.2⟩
          · split at printed
            · obtain ⟨later, next, rfl⟩ := Option.map_eq_some_iff.mp printed
              rw [List.mem_cons, not_or]
              exact ⟨by decide, ih next fun member => plain.2 (List.mem_of_mem_tail member)⟩
            · obtain ⟨⟨conv, rest'⟩, parsed, printed⟩ := Option.bind_eq_some_iff.mp printed
              obtain ⟨n, -, printed⟩ := Option.bind_eq_some_iff.mp printed
              obtain ⟨later, next, rfl⟩ := Option.map_eq_some_iff.mp printed
              rw [List.mem_append, not_or]
              exact ⟨(conv.clean_text n).2, ih next fun member =>
                plain.2 ((Conversion.parse_suffix parsed).subset member)⟩

/-- What is printed at a `%`: one for two of them, or the text of a number, which begins
with something else. -/
theorem printfLoop_percent {fuel : Nat} {rest out : Bytes} {n : Nat} (nonzero : n ≠ 0)
    (printed : printfLoop (fuel + 1) (37 :: rest) (some n) = some (37 :: out)) :
    ∃ rest', rest = 37 :: rest' ∧ printfLoop fuel rest' (some n) = some out := by
  rw [printfLoop, if_neg (by simp)] at printed
  split at printed
  · rename_i head
    obtain ⟨later, printed, same⟩ := Option.map_eq_some_iff.mp printed
    cases rest with
    | nil => cases head
    | cons c rest =>
        rw [List.head?_cons, Option.some.injEq] at head
        rw [List.cons.injEq] at same
        refine ⟨rest, by rw [head], ?_⟩
        rw [← same.2]
        exact printed
  · obtain ⟨⟨conv, rest'⟩, -, printed⟩ := Option.bind_eq_some_iff.mp printed
    rw [Option.bind_some] at printed
    obtain ⟨later, -, same⟩ := Option.map_eq_some_iff.mp printed
    have visible := (conv.clean_text n).1
    cases text : conv.text n with
    | nil => exact absurd text (conv.text_ne_nil nonzero)
    | cons c text' =>
        simp only [text, List.cons_append, List.cons.injEq] at same
        rw [text, same.1] at visible
        exact absurd List.mem_cons_self visible

/-- No text comes out of `printf` with percent signs added in front: the first one would
have to be printed for two of its own, and then one more is missing than before. -/
theorem printfLoop_ne_more {fuel : Nat} {fmt : Bytes} (enough : fmt.length < fuel) {n : Nat}
    (nonzero : n ≠ 0) (k : Nat) :
    printfLoop fuel fmt (some n) ≠ some (List.replicate (k + 1) 37 ++ fmt) := by
  induction fuel generalizing fmt k with
  | zero => exact absurd enough (Nat.not_lt_zero _)
  | succ fuel ih =>
      intro printed
      rw [List.replicate_succ, List.cons_append] at printed
      cases fmt with
      | nil => cases printed
      | cons c rest =>
          by_cases percent : c = 37
          · rw [percent] at printed
            obtain ⟨rest', rfl, later⟩ := printfLoop_percent nonzero printed
            have shifted : List.replicate k (37 : UInt8) ++ 37 :: 37 :: rest' =
                List.replicate (k + 1 + 1) 37 ++ rest' := by
              rw [List.replicate_succ', List.replicate_succ']
              simp
            rw [shifted] at later
            simp only [List.length_cons] at enough
            exact ih (by omega) (k + 1) later
          · rw [printfLoop, if_pos percent] at printed
            obtain ⟨later, -, same⟩ := Option.map_eq_some_iff.mp printed
            rw [List.cons.injEq] at same
            exact percent same.1

/-- `printf` prints a format as it is just when there is no `%` in it. -/
theorem printf_eq_self_iff {fmt : Bytes} {n : Nat} (nonzero : fmt ≠ [] → n ≠ 0) :
    printf fmt n = some fmt ↔ (37 : UInt8) ∉ fmt := by
  constructor
  · have stops : ∀ {fuel : Nat} {fmt : Bytes}, fmt.length < fuel → (fmt ≠ [] → n ≠ 0) →
        printfLoop fuel fmt (some n) = some fmt → (37 : UInt8) ∉ fmt := by
      intro fuel
      induction fuel with
      | zero => exact fun enough => absurd enough (Nat.not_lt_zero _)
      | succ fuel ih =>
          intro fmt enough nonzero printed
          cases fmt with
          | nil => exact List.not_mem_nil
          | cons c rest =>
              have some_arg := nonzero (List.cons_ne_nil _ _)
              rw [List.length_cons] at enough
              by_cases percent : c = 37
              · rw [percent] at printed
                obtain ⟨rest', rfl, later⟩ := printfLoop_percent some_arg printed
                rw [List.length_cons] at enough
                exact absurd later (printfLoop_ne_more (by omega) some_arg 0)
              · rw [printfLoop, if_pos percent] at printed
                obtain ⟨later, next, same⟩ := Option.map_eq_some_iff.mp printed
                rw [List.cons.injEq] at same
                rw [same.2] at next
                rw [List.mem_cons, not_or]
                exact ⟨fun same => percent same.symm, ih (by omega) (fun _ => some_arg) next⟩
    exact stops (Nat.lt_succ_self _) nonzero
  · exact fun plain => printfLoop_plain (Nat.lt_succ_self _) plain _

/-! ## Lines -/

theorem cstr_eq_self {s : Bytes} (free : (0 : UInt8) ∉ s) : cstr s = s := by
  refine List.takeWhile_eq_self_iff.mpr fun c member => decide_eq_true ?_
  rintro rfl
  exact free member

/-- The console shows a line as it is just when there is neither `%` nor NUL in it. -/
theorem console_append_iff (logline : Bytes) :
    ConsoleAppender.append logline = some logline ↔ Clean logline := by
  rw [ConsoleAppender.append]
  constructor
  · intro printed
    have front_free : (0 : UInt8) ∉ cstr logline := by
      intro member
      exact absurd (List.mem_takeWhile_imp member) (by decide)
    have free := printfLoop_no_nul printed front_free
    rw [cstr_eq_self free] at printed
    refine ⟨(printf_eq_self_iff fun some_text => ?_).mp printed, free⟩
    exact (List.length_pos_iff.mpr some_text).ne'
  · rintro ⟨plain, free⟩
    rw [cstr_eq_self free]
    exact printfLoop_plain (Nat.lt_succ_self _) plain _

theorem clean_date {s : Bytes} (date : ∀ c ∈ s, isDateByte c = true) : Clean s := by
  refine clean_of_forall fun c member => ?_
  have byte := date c member
  constructor
  · rintro rfl
    exact absurd byte (by decide)
  · rintro rfl
    exact absurd byte (by decide)

/-- What an item adds to a line is free of `%` and NUL, if the text it prints is. -/
def FmtItem.Prints (data : LogData) : FmtItem → Prop
  | .message => Clean data.content
  | .threadName => Clean data.threadName
  | .fileName => Clean data.fileName
  | .str s => Clean s
  | _ => True

variable (zone : LocalTime) (data : LogData)

theorem FmtItem.clean_format_iff (item : FmtItem) (cache : TimeCache) :
    Clean (item.format zone data cache).1 ↔ item.Prints data := by
  cases item with
  | message => exact Iff.rfl
  | level =>
      refine iff_of_true ?_ trivial
      simp only [FmtItem.format]
      cases data.level <;> decide
  | dateTime => exact iff_of_true (clean_date (TimeCache.date _)) trivial
  | threadId => exact iff_of_true (clean_showNat _) trivial
  | coroutineId => exact iff_of_true (clean_showNat _) trivial
  | threadName => exact Iff.rfl
  | fileName => exact Iff.rfl
  | line => exact iff_of_true (clean_showNat _) trivial
  | nextLine => exact iff_of_true (show Clean (ascii "\n") by decide) trivial
  | table => exact iff_of_true (show Clean (ascii "\t") by decide) trivial
  | str s => exact Iff.rfl

theorem clean_format_iff (items : List FmtItem) (cache : TimeCache) :
    Clean (LogFormatter.format zone data items cache).1 ↔ ∀ item ∈ items, item.Prints data := by
  induction items generalizing cache with
  | nil => exact iff_of_true (show Clean [] by decide) (by simp)
  | cons item items ih =>
      rw [LogFormatter.format, clean_append, item.clean_format_iff, ih, List.forall_mem_cons]

/-- **Console and file.** For every pattern and record, in every state of the thread's time
cache, the console shows the formatted line, which is what the file appender hands to
`AsyncLog`, exactly when no item of the pattern prints a text with `%` or NUL in it. -/
theorem appenders_agree_iff (pattern : Bytes) (cache : TimeCache) :
    ConsoleAppender.append (LogFormatter.format zone data (LogFormatter.init pattern) cache).1 =
        some (FileAppender.append
          (LogFormatter.format zone data (LogFormatter.init pattern) cache).1).line ↔
      ∀ item ∈ LogFormatter.init pattern, item.Prints data := by
  rw [← clean_format_iff zone data _ cache]
  exact console_append_iff _

/-- A time zone, in which it is always the same time. -/
def someZone : LocalTime := ⟨fun _ => ascii "2024-05-06 07:08:09", fun _ => by decide⟩

/-- A record of a message. -/
def record (content : Bytes) : LogData where
  level := .INFO
  content := content
  time := 1
  threadId := 1
  coroutineId := 2
  threadName := ascii "MainThread"
  fileName := ascii "a.cc"
  line := 3

/-- A message with two percent signs is shown with one, and one with a directive with the
length of the line in its place. -/
theorem not_appenders_agree :
    (ConsoleAppender.append (ascii "100%% done") = some (ascii "100% done") ∧
      ConsoleAppender.append (LogFormatter.format someZone (record (ascii "100%% done"))
        (LogFormatter.init (ascii "%m")) .new).1 ≠
      some (FileAppender.append (LogFormatter.format someZone (record (ascii "100%% done"))
        (LogFormatter.init (ascii "%m")) .new).1).line) ∧
    (ConsoleAppender.append (ascii "%zu left") = some (ascii "8 left") ∧
      ConsoleAppender.append (LogFormatter.format someZone (record (ascii "%zu left"))
        (LogFormatter.init (ascii "%m")) .new).1 ≠
      some (FileAppender.append (LogFormatter.format someZone (record (ascii "%zu left"))
        (LogFormatter.init (ascii "%m")) .new).1).line) := by
  refine ⟨⟨by decide, by decide⟩, by decide, by decide⟩

end Reyao
