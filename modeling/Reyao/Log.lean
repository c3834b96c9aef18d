import Reyao.AsyncLog

/-!
# The formatter and the appenders of the log (`log.h`, `log.cc`)

`LogFormatter` cuts its pattern into items once and makes a line of every record with
them. `FileAppender` hands the line to `AsyncLog`; `ConsoleAppender` hands it to `printf`
as the format, with the length of the line as the only argument. `printf` follows the
standard: `none` is a call the standard leaves undefined.
-/

namespace Reyao

/-! ## `printf` with one `size_t` argument -/

/-- The conversions of an integer. -/
inductive IntConversion : Type
  | signed
  | unsigned
  | octal
  | hex (upper : Bool)
  deriving DecidableEq, Repr

/-- A conversion specification: its flags, field width, precision and conversion. -/
structure Conversion : Type where
  flags : Bytes
  width : Nat
  precision : Option Nat
  kind : IntConversion
  deriving DecidableEq, Repr

namespace Conversion

def isFlag (c : UInt8) : Bool := (ascii "-+ #0").contains c

def kindOf (c : UInt8) : Option IntConversion :=
  if c = 100 ∨ c = 105 then some .signed
  else if c = 117 then some .unsigned
  else if c = 111 then some .octal
  else if c = 120 then some (.hex false)
  else if c = 88 then some (.hex true)
  else none

/-- The length modifier and the conversion, if they are for a `size_t` (which is an
`unsigned long`), and what follows them. -/
def parseEnd (flags : Bytes) (width : Nat) (precision : Option Nat) :
    Bytes → Option (Conversion × Bytes)
  | modifier :: c :: rest =>
      if modifier = 122 ∨ modifier = 108 then
        (kindOf c).bind fun kind =>
          -- the alternative form is not defined for decimal numbers
          if flags.contains 35 ∧ (kind = .signed ∨ kind = .unsigned) then none
          else some (⟨flags, width, precision, kind⟩, rest)
      else none
  | _ => none

/-- The specification behind a `%` and what follows it. -/
def parse (s : Bytes) : Option (Conversion × Bytes) :=
  let flags := s.takeWhile isFlag
  let s := s.dropWhile isFlag
  let width := decimalValue (s.takeWhile isdigit)
  let s := s.dropWhile isdigit
  if s.head? = some 46 then
    parseEnd flags width (some (decimalValue (s.tail.takeWhile isdigit)))
      (s.tail.dropWhile isdigit)
  else parseEnd flags width none s

/-- A digit, in the base of the conversion. -/
def digit (kind : IntConversion) (d : Nat) : UInt8 :=
  if d < 10 then UInt8.ofNat (48 + d)
  else if kind = .hex true then UInt8.ofNat (55 + d) else UInt8.ofNat (87 + d)

def base : IntConversion → Nat
  | .signed => 10
  | .unsigned => 10
  | .octal => 8
  | .hex _ => 16

/-- The digits of a number, as many as the precision asks for. -/
def digits (conv : Conversion) (n : Nat) : Bytes :=
  let ds := (Nat.digits (base conv.kind) n).reverse.map (digit conv.kind)
  List.replicate (conv.precision.getD 1 - ds.length) 48 ++ ds

/-- The sign or the base in front of the digits. -/
def sign (conv : Conversion) (n : Nat) : Bytes :=
  match conv.kind with
  | .signed =>
      if conv.flags.contains 43 then [43] else if conv.flags.contains 32 then [32] else []
  | .unsigned => []
  | .octal => if conv.flags.contains 35 ∧ (conv.digits n).head? ≠ some 48 then [48] else []
  | .hex upper =>
      if conv.flags.contains 35 ∧ n ≠ 0 then [48, if upper then 88 else 120] else []

/-- What is printed for a number. -/
def text (conv : Conversion) (n : Nat) : Bytes :=
  let sign := conv.sign n
  let digits := conv.digits n
  let fill := conv.width - (sign.length + digits.length)
  if conv.flags.contains 45 then sign ++ digits ++ List.replicate fill 32
  else if conv.flags.contains 48 ∧ conv.precision = none then
    sign ++ List.replicate fill 48 ++ digits
  else List.replicate fill 32 ++ sign ++ digits

end Conversion

/-- The loop of `printf` over its format; the argument is there until it is used. -/
def printfLoop : Nat → Bytes → Option Nat → Option Bytes
  | 0, _, _ => some []
  | _ + 1, [], _ => some []
  | fuel + 1, c :: rest, arg =>
      if c ≠ 37 then (printfLoop fuel rest arg).map (c :: ·)
      else if rest.head? = some 37 then (printfLoop fuel rest.tail arg).map (37 :: ·)
      else
        (Conversion.parse rest).bind fun spec => arg.bind fun n =>
          (printfLoop fuel spec.2 none).map (spec.1.text n ++ ·)

/-- `printf(fmt, n)`: what it prints. -/
def printf (fmt : Bytes) (n : Nat) : Option Bytes := printfLoop (fmt.length + 1) fmt (some n)

/-! ## Records -/

inductive LogLevel : Type
  | DEBUG
  | INFO
  | WARN
  | ERROR
  | FATAL
  deriving DecidableEq, Repr

/-- `LogLevel::ToString`. -/
def LogLevel.ToString : LogLevel → Bytes
  | DEBUG => ascii "DEBUG"
  | INFO => ascii "INFO"
  | WARN => ascii "WARN"
  | ERROR => ascii "ERROR"
  | FATAL => ascii "FATAL"

structure LogData : Type where
  level : LogLevel
  content : Bytes
  time : Int
  threadId : UInt32
  coroutineId : UInt32
  threadName : Bytes
  fileName : Bytes
  line : UInt32
  deriving DecidableEq

/-- A byte of a date and a time of day. -/
def isDateByte (c : UInt8) : Bool := isdigit c || (ascii "-: ").contains c

/-- `localtime_r` and `strftime` with `"%Y-%m-%d %H:%M:%S"`, for a time zone. -/
structure LocalTime : Type where
  text : Int → Bytes
  date : ∀ second, ∀ c ∈ text second, isDateByte c = true

/-- `t_last_second` and `t_time` of a thread. -/
structure TimeCache : Type where
  lastSecond : Int
  time : Bytes
  date : ∀ c ∈ time, isDateByte c = true

/-- The cache of a new thread. -/
def TimeCache.new : TimeCache := ⟨0, [], by decide⟩

/-! ## The formatter -/

inductive FmtItem : Type
  | message
  | level
  | dateTime
  | threadId
  | coroutineId
  | threadName
  | fileName
  | line
  | nextLine
  | table
  | str (s : Bytes)
  deriving DecidableEq, Repr

namespace LogFormatter

def isalpha (c : UInt8) : Bool := (65 ≤ c && c ≤ 90) || (97 ≤ c && c ≤ 122)

/-- A text that is not empty becomes an item of its own. -/
def flush (s : Bytes) : List (Bytes × Bool) := if s = [] then [] else [(s, false)]

/-- The loop of `init` over the pattern: the texts and, marked, the names of the
directives. `%%` adds a `%` and leaves the second one to be looked at again. -/
def split : Nat → Bytes → Bytes → List (Bytes × Bool)
  | 0, s, _ => flush s
  | _ + 1, s, [] => flush s
  | fuel + 1, s, c :: rest =>
      if c ≠ 37 then split fuel (s ++ [c]) rest
      else if rest.head? = some 37 then split fuel (s ++ [37]) rest
      else flush s ++ (rest.takeWhile isalpha, true) :: split fuel [] (rest.dropWhile isalpha)

/-- `format2Item`. -/
def format2Item : List (Bytes × FmtItem) :=
  [(ascii "m", .message), (ascii "p", .level), (ascii "d", .dateTime), (ascii "t", .threadId),
    (ascii "c", .coroutineId), (ascii "N", .threadName), (ascii "f", .fileName),
    (ascii "l", .line), (ascii "n", .nextLine), (ascii "T", .table)]

def itemOf : Bytes × Bool → FmtItem
  | (s, false) => .str s
  | (name, true) =>
      (format2Item.lookup name).getD (.str (ascii "<<error format %" ++ name ++ ascii ">>"))

/-- `init()`: the items of a pattern. -/
def init (pattern : Bytes) : List FmtItem := (split (pattern.length + 1) [] pattern).map itemOf

end LogFormatter

/-- `format(std::stringstream& ss, const LogData& data)` of an item. -/
def FmtItem.format (zone : LocalTime) (data : LogData) (cache : TimeCache) :
    FmtItem → Bytes × TimeCache
  | message => (data.content, cache)
  | level => (data.level.ToString, cache)
  | dateTime =>
      let cache := if data.time ≠ cache.lastSecond then
          ⟨data.time, zone.text data.time, zone.date data.time⟩ else cache
      (cache.time, cache)
  | threadId => (showNat data.threadId.toNat, cache)
  | coroutineId => (showNat data.coroutineId.toNat, cache)
  | threadName => (data.threadName, cache)
  | fileName => (data.fileName, cache)
  | line => (showNat data.line.toNat, cache)
  | nextLine => (ascii "\n", cache)
  | table => (ascii "\t", cache)
  | str s => (s, cache)

/-- `LogFormatter::format(const LogData& data)`. -/
def LogFormatter.format (zone : LocalTime) (data : LogData) :
    List FmtItem → TimeCache → Bytes × TimeCache
  | [], cache => ([], cache)
  | item :: items, cache =>
      let text := item.format zone data cache
      let rest := format zone data items text.2
      (text.1 ++ rest.1, rest.2)

/-! ## The appenders -/

/-- `FileAppender::append`: the call it makes of `AsyncLog`. -/
def FileAppender.append (logline : Bytes) : LogEvent := .append logline

/-- `ConsoleAppender::append`: what it prints. -/
def ConsoleAppender.append (logline : Bytes) : Option Bytes := printf (cstr logline) logline.length

end Reyao
