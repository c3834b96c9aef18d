import Reyao.Log

/-!
# Patterns of the log formatter (`log.cc`)

A pattern is made of tokens: text, directives, and the escape `%%`. `init` reads a
pattern byte by byte; behind the first `%` of an escape it goes on at the second, which it
then takes for the beginning of a directive or of another escape. So a pattern without
escapes is formatted token by token, and a pattern with one never is
(`pattern_formats_iff`).
-/

namespace Reyao

/-- A part of a pattern. -/
inductive Token : Type
  | text (s : Bytes)
  | directive (letter : UInt8)
  | escape
  deriving DecidableEq

namespace Token

def pattern : Token → Bytes
  | text s => s
  | directive letter => [37, letter]
  | escape => [37, 37]

/-- The pattern of a list of tokens. -/
def patternOf (tokens : List Token) : Bytes := tokens.flatMap pattern

/-- What the token stands for. -/
def item : Token → FmtItem
  | text s => .str s
  | directive letter => LogFormatter.itemOf ([letter], true)
  | escape => .str [37]

/-- The letters of the directives. -/
def letters : Bytes := ascii "mpdtcNflnT"

/-- The tokens can be told apart: there is no `%` in a text, a directive has one of the
letters, and no letter follows it. -/
def WellFormed : List Token → Prop
  | [] => True
  | text s :: tokens => 37 ∉ s ∧ WellFormed tokens
  | directive letter :: tokens =>
      letter ∈ letters ∧ (patternOf tokens).head?.any LogFormatter.isalpha = false ∧
        WellFormed tokens
  | escape :: tokens => WellFormed tokens

end Token

open LogFormatter Token

/-! ## The loop of `init` -/

/-- The fuel is not what ends the loop. -/
theorem split_eq_split {fuel fuel' : Nat} {p : Bytes} (enough : p.length < fuel)
    (enough' : p.length < fuel') (s : Bytes) : split fuel s p = split fuel' s p := by
  induction fuel generalizing fuel' p s with
  | zero => exact absurd enough (Nat.not_lt_zero _)
  | succ fuel ih =>
      obtain ⟨k, rfl⟩ : ∃ k, fuel' = k + 1 := ⟨fuel' - 1, by omega⟩
      cases p with
      | nil => rfl
      | cons c rest =>
          rw [List.length_cons] at enough enough'
          have tail : (rest.dropWhile isalpha).length ≤ rest.length :=
            (List.dropWhile_suffix _).length_le
          rw [split, split, ih (show rest.length < fuel by omega) (show rest.length < k by omega),
            ih (show rest.length < fuel by omega) (show rest.length < k by omega),
            ih (show (rest.dropWhile isalpha).length < fuel by omega)
              (show (rest.dropWhile isalpha).length < k by omega)]

/-- The loop with as much fuel as `init` gives it. -/
def parts (s p : Bytes) : List (Bytes × Bool) := split (p.length + 1) s p

theorem parts_nil (s : Bytes) : parts s [] = flush s := rfl

theorem parts_cons {c : UInt8} (other : c ≠ 37) (s rest : Bytes) :
    parts s (c :: rest) = parts (s ++ [c]) rest := by
  rw [parts, split, if_pos other]
  rfl

theorem parts_percent_percent (s rest : Bytes) :
    parts s (37 :: 37 :: rest) = parts (s ++ [37]) (37 :: rest) := by
  rw [parts, split, if_neg (by decide), if_pos List.head?_cons]
  rfl

theorem parts_percent {rest : Bytes} (other : rest.head? ≠ some 37) (s : Bytes) :
    parts s (37 :: rest) =
      flush s ++ (rest.takeWhile isalpha, true) :: parts [] (rest.dropWhile isalpha) := by
  have tail : (rest.dropWhile isalpha).length ≤ rest.length :=
    (List.dropWhile_suffix _).length_le
  rw [parts, split, if_neg (by decide), if_neg other, parts, List.length_cons,
    split_eq_split (show (rest.dropWhile isalpha).length < rest.length + 1 by omega)
      (Nat.lt_succ_self _)]

/-- Text is only collected. -/
theorem parts_append {t : Bytes} (text : 37 ∉ t) (s rest : Bytes) :
    parts s (t ++ rest) = parts (s ++ t) rest := by
  induction t generalizing s with
  | nil => rw [List.nil_append, List.append_nil]
  | cons c t ih =>
      rw [List.mem_cons, not_or] at text
      rw [List.cons_append, parts_cons (Ne.symm text.1), ih text.2, List.append_assoc,
        List.singleton_append]

/-- Where no letter comes first, no name of a directive begins. -/
theorem no_letter {rest : Bytes} (apart : rest.head?.any isalpha = false) :
    rest.takeWhile isalpha = [] ∧ rest.dropWhile isalpha = rest := by
  cases rest with
  | nil => exact ⟨rfl, rfl⟩
  | cons c rest =>
      have stops : ¬isalpha c = true := by
        rw [List.head?_cons, Option.any_some] at apart
        rw [apart]
        exact Bool.false_ne_true
      exact ⟨List.takeWhile_cons_of_neg stops, List.dropWhile_cons_of_neg stops⟩

/-- What a directive is told by: a letter that no letter follows. -/
theorem parts_directive {letter : UInt8} (named : letter ∈ letters) {rest : Bytes}
    (apart : rest.head?.any isalpha = false) (s : Bytes) :
    parts s (37 :: letter :: rest) = flush s ++ ([letter], true) :: parts [] rest := by
  have facts : ∀ c ∈ letters, isalpha c = true ∧ c ≠ 37 := by decide
  obtain ⟨alpha, other⟩ := facts letter named
  have ends := no_letter apart
  rw [parts_percent (by rw [List.head?_cons]; exact fun same => other (Option.some.inj same)),
    List.takeWhile_cons_of_pos alpha, List.dropWhile_cons_of_pos alpha, ends.1, ends.2]

theorem init_eq (p : Bytes) : LogFormatter.init p = (parts [] p).map itemOf := rfl

/-! ## Patterns without escapes -/

section

variable (zone : LocalTime) (data : LogData)

theorem format_flush (s : Bytes) (items : List FmtItem) (cache : TimeCache) :
    LogFormatter.format zone data ((flush s).map itemOf ++ items) cache =
      (s ++ (LogFormatter.format zone data items cache).1,
        (LogFormatter.format zone data items cache).2) := by
  rw [flush]
  split
  · rename_i empty
    rw [empty, List.map_nil, List.nil_append, List.nil_append]
  · rw [List.map_cons, List.map_nil, List.singleton_append, LogFormatter.format]
    rfl

/-- A pattern without escapes is formatted token by token, behind the text so far. -/
theorem format_parts {tokens : List Token} (wf : WellFormed tokens) (plain : escape ∉ tokens)
    (s : Bytes) (cache : TimeCache) :
    LogFormatter.format zone data ((parts s (patternOf tokens)).map itemOf) cache =
      (s ++ (LogFormatter.format zone data (tokens.map Token.item) cache).1,
        (LogFormatter.format zone data (tokens.map Token.item) cache).2) := by
  induction tokens generalizing s cache with
  | nil =>
      have flushed := format_flush zone data s [] cache
      rwa [List.append_nil] at flushed
  | cons token tokens ih =>
      rw [List.mem_cons, not_or] at plain
      cases token with
      | text t =>
          have whole : patternOf (text t :: tokens) = t ++ patternOf tokens := List.flatMap_cons
          rw [whole, parts_append wf.1, ih wf.2 plain.2, List.append_assoc]
          rfl
      | directive letter =>
          have whole : patternOf (directive letter :: tokens) = 37 :: letter :: patternOf tokens :=
            List.flatMap_cons
          obtain ⟨named, apart, wf⟩ := wf
          rw [whole, parts_directive named apart, List.map_append, List.map_cons, format_flush,
            LogFormatter.format]
          simp only [ih wf plain.2, List.nil_append]
          rfl
      | escape => exact absurd rfl plain.1

end

/-! ## Patterns with escapes

To see that a pattern with an escape is formatted wrongly, the bytes of the line are weighed,
line feeds and tabs twice. A record is chosen for which every directive weighs more than its
letter. Where the code takes a directive out of text it then always writes too much. -/

def weight (s : Bytes) : Nat := (s.map fun b => if b = 10 ∨ b = 9 then 2 else 1).sum

theorem weight_append (s t : Bytes) : weight (s ++ t) = weight s + weight t := by
  rw [weight, List.map_append, List.sum_append]
  rfl

theorem length_le_weight (s : Bytes) : s.length ≤ weight s := by
  induction s with
  | nil => exact Nat.zero_le _
  | cons b s ih =>
      rw [weight, List.map_cons, List.sum_cons, List.length_cons]
      rw [weight] at ih
      split <;> omega

/-- Letters weigh one. -/
theorem weight_of_isalpha {s : Bytes} (alpha : ∀ b ∈ s, isalpha b = true) :
    weight s = s.length := by
  induction s with
  | nil => rfl
  | cons b s ih =>
      have letter := alpha b List.mem_cons_self
      have rest := ih fun c member => alpha c (List.mem_cons_of_mem _ member)
      have plain : ¬(b = 10 ∨ b = 9) := by
        rintro (rfl | rfl)
        · exact absurd letter (by decide)
        · exact absurd letter (by decide)
      rw [weight] at rest
      rw [weight, List.map_cons, List.sum_cons, List.length_cons, if_neg plain, rest]
      omega

/-- A second that is written with two digits. -/
def heavyZone : LocalTime := ⟨fun _ => ascii "00", fun _ => by decide⟩

def heavyCache : TimeCache := ⟨0, ascii "00", by decide⟩

/-- A record in which no directive is shorter than two bytes. -/
def heavyRecord : LogData where
  level := .INFO
  content := ascii "xx"
  time := 0
  threadId := 10
  coroutineId := 10
  threadName := ascii "xx"
  fileName := ascii "xx"
  line := 10

/-- What an item writes for the record. -/
def heavyText (item : FmtItem) : Bytes := (item.format heavyZone heavyRecord heavyCache).1

theorem format_heavy (items : List FmtItem) :
    LogFormatter.format heavyZone heavyRecord items heavyCache =
      (items.flatMap heavyText, heavyCache) := by
  induction items with
  | nil => rfl
  | cons item items ih =>
      have keeps : (item.format heavyZone heavyRecord heavyCache).2 = heavyCache := by
        cases item <;> rfl
      rw [LogFormatter.format]
      simp only [keeps, ih]
      rfl

/-- The weight of what `init` makes of the rest of a pattern. -/
def total (p : Bytes) : Nat := weight (((parts [] p).map itemOf).flatMap heavyText)

theorem weight_flush (s : Bytes) :
    weight (((flush s).map itemOf).flatMap heavyText) = weight s := by
  rw [flush]
  split
  · rename_i empty
    rw [empty]
    rfl
  · rw [List.map_cons, List.map_nil, List.flatMap_cons, List.flatMap_nil, List.append_nil]
    rfl

/-- A directive weighs more than its name. -/
theorem name_lt_weight (name : Bytes) :
    name.length < weight (heavyText (itemOf (name, true))) := by
  rw [itemOf]
  cases found : format2Item.lookup name with
  | none =>
      have longer := length_le_weight
        (heavyText (.str (ascii "<<error format %" ++ name ++ ascii ">>")))
      have size : (heavyText (.str (ascii "<<error format %" ++ name ++ ascii ">>"))).length =
          16 + name.length + 2 := by
        rw [heavyText, FmtItem.format, List.length_append, List.length_append]
        rfl
      rw [Option.getD_none]
      omega
  | some item =>
      have heavy : ∀ entry ∈ format2Item, entry.1.length < weight (heavyText entry.2) := by decide
      obtain ⟨before, after, split, -⟩ := List.lookup_eq_some_iff.mp found
      rw [Option.getD_some]
      refine heavy (name, item) ?_
      rw [split]
      exact List.mem_append_right _ List.mem_cons_self

theorem weight_parts_append (s : Bytes) (rest : List (Bytes × Bool)) :
    weight (((flush s ++ rest).map itemOf).flatMap heavyText) =
      weight s + weight ((rest.map itemOf).flatMap heavyText) := by
  rw [List.map_append, List.flatMap_append, weight_append, weight_flush]

/-- The text so far is written as it is. -/
theorem weight_parts (s p : Bytes) :
    weight (((parts s p).map itemOf).flatMap heavyText) = weight s + total p := by
  induction p generalizing s with
  | nil =>
      rw [parts_nil, weight_flush]
      rfl
  | cons c rest ih =>
      by_cases other : c ≠ 37
      · have alone : total (c :: rest) = weight [c] + total rest := by
          rw [total, parts_cons other]
          exact ih [c]
        rw [parts_cons other, ih, alone, weight_append, Nat.add_assoc]
      · obtain rfl := not_not.mp other
        by_cases twice : rest.head? = some 37
        · obtain ⟨tail, rfl⟩ : ∃ tail, rest = 37 :: tail := by
            obtain ⟨head, tail⟩ := List.head?_eq_some_iff.mp twice
            exact ⟨head, tail⟩
          have alone : total (37 :: 37 :: tail) = weight [37] + total (37 :: tail) := by
            rw [total, parts_percent_percent]
            exact ih [37]
          rw [parts_percent_percent, ih, alone, weight_append, Nat.add_assoc]
        · rw [total, parts_percent twice, parts_percent twice, weight_parts_append,
            weight_parts_append]
          exact congrArg (weight s + ·) (Nat.zero_add _).symm

theorem total_append {t : Bytes} (text : 37 ∉ t) (p : Bytes) :
    total (t ++ p) = weight t + total p := by
  rw [total, parts_append text, List.nil_append, weight_parts]

theorem total_percent_percent (p : Bytes) : total (37 :: 37 :: p) = 1 + total (37 :: p) := by
  rw [total, parts_percent_percent, weight_parts]
  rfl

theorem total_percent {rest : Bytes} (other : rest.head? ≠ some 37) :
    total (37 :: rest) =
      weight (heavyText (itemOf (rest.takeWhile isalpha, true))) +
        total (rest.dropWhile isalpha) := by
  rw [total, parts_percent other, weight_parts_append, List.map_cons, List.flatMap_cons,
    weight_append]
  exact Nat.zero_add _

theorem total_directive {letter : UInt8} (named : letter ∈ letters) {rest : Bytes}
    (apart : rest.head?.any isalpha = false) :
    total (37 :: letter :: rest) = weight (heavyText (directive letter).item) + total rest := by
  rw [total, parts_directive named apart, weight_parts_append, List.map_cons, List.flatMap_cons,
    weight_append]
  exact Nat.zero_add _

/-- The weight of the tokens, one by one. -/
def tokensWeight (tokens : List Token) : Nat :=
  weight ((tokens.map Token.item).flatMap heavyText)

theorem tokensWeight_cons (token : Token) (tokens : List Token) :
    tokensWeight (token :: tokens) = weight (heavyText token.item) + tokensWeight tokens := by
  rw [tokensWeight, List.map_cons, List.flatMap_cons, weight_append]
  rfl

/-- The name of a directive goes as far as the letters do. -/
theorem total_named {name p : Bytes} (alpha : ∀ b ∈ name, isalpha b = true)
    (apart : p.head?.any isalpha = false) (other : (name ++ p).head? ≠ some 37) :
    total (37 :: (name ++ p)) = weight (heavyText (itemOf (name, true))) + total p := by
  obtain ⟨taken, dropped⟩ := no_letter apart
  rw [total_percent other, List.takeWhile_append_of_pos alpha, List.dropWhile_append_of_pos alpha,
    taken, dropped, List.append_nil]

theorem head?_append_ne {name p : Bytes} (alpha : ∀ b ∈ name, isalpha b = true)
    (rest : name = [] → p.head? ≠ some 37) : (name ++ p).head? ≠ some 37 := by
  cases name with
  | nil => exact rest rfl
  | cons b name =>
      intro percent
      cases percent
      exact absurd (alpha 37 List.mem_cons_self) (by decide)

/-- A `%` and letters in front of another `%`. -/
theorem lt_total_of_percent {name p : Bytes} {n : Nat} (alpha : ∀ b ∈ name, isalpha b = true)
    (least : n ≤ total (37 :: p)) : name.length + n < total (37 :: (name ++ 37 :: p)) := by
  cases name with
  | nil =>
      have again := total_percent_percent p
      rw [List.nil_append, List.length_nil]
      omega
  | cons b name =>
      have more := name_lt_weight (b :: name)
      have apart : (37 :: p).head?.any isalpha = false := rfl
      rw [total_named alpha apart (head?_append_ne alpha nofun)]
      omega

/-- A `%` and letters in front of text: the name goes on with the letters of the text, and
behind it if the text has nothing else. -/
theorem lt_total_of_text {name t p : Bytes} {n : Nat} (plain : 37 ∉ t)
    (alpha : ∀ b ∈ name, isalpha b = true) (least : n ≤ total p)
    (named : ∀ name, (∀ b ∈ name, isalpha b = true) →
      name.length + n < total (37 :: (name ++ p))) :
    name.length + (weight t + n) < total (37 :: (name ++ (t ++ p))) := by
  have cut : t.takeWhile isalpha ++ t.dropWhile isalpha = t := List.takeWhile_append_dropWhile
  have taken : ∀ b ∈ name ++ t.takeWhile isalpha, isalpha b = true := by
    intro b member
    rcases List.mem_append.mp member with front | member
    · exact alpha b front
    · exact List.mem_takeWhile_imp member
  have light := weight_of_isalpha fun b member => taken b (List.mem_append_right name member)
  have sum : weight t = (t.takeWhile isalpha).length + weight (t.dropWhile isalpha) := by
    rw [← light, ← weight_append, cut]
  have stop := List.head?_dropWhile_not isalpha t
  cases rest : t.dropWhile isalpha with
  | nil =>
      have front := named _ taken
      have none_left : weight [] = 0 := rfl
      rw [rest, List.append_nil] at cut
      rw [cut, List.length_append, List.append_assoc] at front
      rw [rest, none_left, cut] at sum
      omega
  | cons b others =>
      rw [rest, List.head?_cons] at stop
      have longer := name_lt_weight (name ++ t.takeWhile isalpha)
      have apart : (b :: others ++ p).head?.any isalpha = false := stop
      have other : (name ++ t.takeWhile isalpha ++ (b :: others ++ p)).head? ≠ some 37 := by
        refine head?_append_ne taken fun _ percent => plain ?_
        cases percent
        rw [← cut, rest]
        exact List.mem_append_right _ List.mem_cons_self
      have plain' : 37 ∉ b :: others := fun member => plain (by
        rw [← cut, rest]
        exact List.mem_append_right _ member)
      have whole : name ++ (t ++ p) = name ++ t.takeWhile isalpha ++ (b :: others ++ p) := by
        rw [← rest, List.append_assoc, ← List.append_assoc (t.takeWhile isalpha), cut]
      rw [List.length_append] at longer
      rw [whole, total_named taken apart other, total_append plain', sum, rest]
      omega

/-- What the code writes weighs no less than the tokens, and more if there is an escape; a
`%` in front, with some letters, always makes it more. -/
theorem tokensWeight_le {tokens : List Token} (wf : WellFormed tokens) :
    tokensWeight tokens ≤ total (patternOf tokens) ∧
      (escape ∈ tokens → tokensWeight tokens < total (patternOf tokens)) ∧
      ∀ name, (∀ b ∈ name, isalpha b = true) →
        name.length + tokensWeight tokens < total (37 :: (name ++ patternOf tokens)) := by
  induction tokens with
  | nil =>
      refine ⟨le_refl _, nofun, fun name alpha => ?_⟩
      have more := name_lt_weight name
      have none_left : patternOf [] = [] := rfl
      rw [none_left, total_named alpha rfl (head?_append_ne alpha fun _ => by simp)]
      exact lt_of_lt_of_le more (Nat.le_add_right _ _)
  | cons token tokens ih =>
      rw [tokensWeight_cons]
      cases token with
      | text t =>
          obtain ⟨plain, wf⟩ := wf
          obtain ⟨least, strict, named⟩ := ih wf
          have whole : patternOf (text t :: tokens) = t ++ patternOf tokens := List.flatMap_cons
          have written : weight (heavyText (text t).item) = weight t := rfl
          rw [whole, written, total_append plain]
          refine ⟨by omega, fun member => ?_, fun name alpha => ?_⟩
          · have later := strict ((List.mem_cons.mp member).resolve_left nofun)
            omega
          · exact lt_total_of_text plain alpha least named
      | directive letter =>
          obtain ⟨known, apart, wf⟩ := wf
          obtain ⟨least, strict, -⟩ := ih wf
          have whole : patternOf (directive letter :: tokens) = 37 :: letter :: patternOf tokens :=
            List.flatMap_cons
          have written := total_directive known apart
          rw [whole, written]
          refine ⟨by omega, fun member => ?_, fun name alpha => ?_⟩
          · have later := strict ((List.mem_cons.mp member).resolve_left nofun)
            omega
          · exact lt_total_of_percent alpha (by rw [written]; omega)
      | escape =>
          obtain ⟨-, -, named⟩ := ih wf
          have behind := named [] nofun
          have whole : patternOf (escape :: tokens) = 37 :: 37 :: patternOf tokens :=
            List.flatMap_cons
          have one : weight (heavyText escape.item) = 1 := rfl
          have written := total_percent_percent (patternOf tokens)
          rw [List.nil_append, List.length_nil] at behind
          rw [whole, one, written]
          refine ⟨by omega, fun _ => by omega, fun name alpha => ?_⟩
          exact lt_total_of_percent alpha (by rw [written]; omega)

/-- **When a pattern is formatted token by token.** A list of tokens that can be told apart,
written as a pattern, formats every record, in every state of the thread's time cache, as
its tokens one after the other exactly when there is no escape among them. -/
theorem pattern_formats_iff {tokens : List Token} (wf : WellFormed tokens) :
    (∀ zone data cache,
        (LogFormatter.format zone data (LogFormatter.init (patternOf tokens)) cache).1 =
          (LogFormatter.format zone data (tokens.map Token.item) cache).1) ↔
      escape ∉ tokens := by
  constructor
  · intro same member
    have line := same heavyZone heavyRecord heavyCache
    rw [format_heavy, format_heavy, init_eq] at line
    have heavier := (tokensWeight_le wf).2.1 member
    have equal : total (patternOf tokens) = tokensWeight tokens := congrArg weight line
    omega
  · intro plain zone data cache
    rw [init_eq, format_parts zone data wf plain, List.nil_append]

/-- The tokens of the pattern `%p: %m%n`. -/
def levelAndMessage : List Token :=
  [.directive 112, .text (ascii ": "), .directive 109, .directive 110]

theorem levelAndMessage_wellFormed : WellFormed levelAndMessage :=
  ⟨by decide, by decide, by decide, by decide, by decide, by decide, by decide, trivial⟩

theorem levelAndMessage_formats : patternOf levelAndMessage = ascii "%p: %m%n" ∧
    ∀ zone data cache,
      (LogFormatter.format zone data (LogFormatter.init (patternOf levelAndMessage)) cache).1 =
        (LogFormatter.format zone data (levelAndMessage.map Token.item) cache).1 :=
  ⟨by decide, (pattern_formats_iff levelAndMessage_wellFormed).mpr (by decide)⟩

/-- The tokens of the pattern `100%%`. -/
def hundredPercent : List Token := [.text (ascii "100"), .escape]

/-- The second `%` of the escape is taken for a directive without a name. -/
theorem hundredPercent_formats_wrong :
    WellFormed hundredPercent ∧ patternOf hundredPercent = ascii "100%%" ∧
      (LogFormatter.format heavyZone heavyRecord (hundredPercent.map Token.item) heavyCache).1 =
        ascii "100%" ∧
      (LogFormatter.format heavyZone heavyRecord
        (LogFormatter.init (patternOf hundredPercent)) heavyCache).1 =
        ascii "100%<<error format %>>" :=
  ⟨⟨by decide, trivial⟩, by decide, by decide, by decide⟩

end Reyao
