import Reyao.Http.Heads
import Mathlib.Algebra.Order.Ring.Nat

/-!
# Chunked bodies

A chunk is its size in hexadecimal digits, a line end, its data and a line end; a
chunk of size 0 ends the body. `parseChunkedBody` takes the line end behind the
data for a part of the data: what it assembles is the data of the chunks with a
line end after each (`settles_chunks`).
-/

namespace Reyao.Http

open Lib

/-! ## Sizes -/

/-- The value of a hexadecimal digit of either case. -/
def hexDigit (c : UInt8) : Option Nat :=
  if 48 ≤ c ∧ c ≤ 57 then some (c.toNat - 48)
  else if 65 ≤ c ∧ c ≤ 70 then some (c.toNat - 55)
  else if 97 ≤ c ∧ c ≤ 102 then some (c.toNat - 87)
  else none

/-- The value of a numeral, continued from `n`. -/
def hexFrom (n : Nat) (text : Bytes) : Nat :=
  text.foldl (fun n c => n * 16 + (hexDigit c).getD 0) n

/-- A digit is one `HexToDec` knows, with the same value. -/
theorem hexDigit_cases {c : UInt8} {d : Nat} (digit : hexDigit c = some d) :
    (48 ≤ c ∧ c ≤ 57) ∧ d = c.toNat - 48 ∨
      ¬(48 ≤ c ∧ c ≤ 57) ∧ (65 ≤ toupper c ∧ toupper c ≤ 70) ∧ d = (toupper c).toNat - 65 + 10 := by
  rw [hexDigit] at digit
  split at digit
  · cases digit
    exact Or.inl ⟨by assumption, rfl⟩
  · rename_i other
    refine Or.inr ⟨other, ?_⟩
    split at digit
    · rename_i upper
      cases digit
      have unchanged : toupper c = c := by
        rw [toupper, if_neg]
        simp only [UInt8.le_iff_toNat_le, UInt8.reduceToNat] at upper ⊢
        omega
      rw [unchanged]
      refine ⟨upper, ?_⟩
      simp only [UInt8.le_iff_toNat_le, UInt8.reduceToNat] at upper
      omega
    · split at digit
      · rename_i lower
        cases digit
        simp only [UInt8.le_iff_toNat_le, UInt8.reduceToNat] at lower
        have raised : toupper c = c - 32 := by
          rw [toupper, if_pos]
          simp only [UInt8.le_iff_toNat_le, UInt8.reduceToNat]
          omega
        have value : (c - 32).toNat = c.toNat - 32 :=
          UInt8.toNat_sub_of_le c 32 (by simp only [UInt8.le_iff_toNat_le, UInt8.reduceToNat]; omega)
        simp only [raised, UInt8.le_iff_toNat_le, UInt8.reduceToNat, value]
        omega
      · cases digit

theorem hexDigit_none {c : UInt8} (other : hexDigit c = none) :
    ¬(48 ≤ c ∧ c ≤ 57) ∧ ¬(65 ≤ toupper c ∧ toupper c ≤ 70) := by
  simp only [hexDigit, ite_eq_iff, reduceCtorEq, and_false, false_or, and_true] at other
  obtain ⟨decimal, upper, lower⟩ := other
  refine ⟨decimal, ?_⟩
  rw [toupper]
  split
  · rename_i small
    have value : (c - 32).toNat = c.toNat - 32 := by
      apply UInt8.toNat_sub_of_le
      simp only [UInt8.le_iff_toNat_le, UInt8.reduceToNat] at small ⊢
      omega
    simp only [UInt8.le_iff_toNat_le, UInt8.reduceToNat, value] at lower small ⊢
    omega
  · exact upper

/-- What `HexToDec` does with one byte. -/
def hexStep (res : Option Nat) (c : UInt8) : Option Nat :=
  res.bind fun res => (hexDigit c).map fun d => (res * 16 + d) % 2 ^ 64

/-- `HexToDec` as a fold over the digits. -/
theorem HexToDec_fold (text : Bytes) :
    HttpParser.HexToDec text = match text.foldl hexStep (some 0) with
      | some res => toInt res
      | none => -1 := by
  rw [HttpParser.HexToDec]
  congr 2
  funext res c
  rw [hexStep]
  congr 1
  funext res
  cases digit : hexDigit c with
  | none =>
      obtain ⟨decimal, letter⟩ := hexDigit_none digit
      rw [if_neg decimal, if_neg letter]
      rfl
  | some d =>
      rcases hexDigit_cases digit with ⟨decimal, value⟩ | ⟨other, letter, value⟩
      · rw [if_pos decimal, ← value]
        rfl
      · rw [if_neg other, if_pos letter, Nat.add_assoc, ← value]
        rfl

/-- A numeral is read modulo `2^64`. -/
theorem foldl_hexStep {text : Bytes} (digits : ∀ c ∈ text, (hexDigit c).isSome = true) (n : Nat) :
    text.foldl hexStep (some (n % 2 ^ 64)) = some (hexFrom n text % 2 ^ 64) := by
  induction text generalizing n with
  | nil => rfl
  | cons c text ih =>
      obtain ⟨d, digit⟩ := Option.isSome_iff_exists.mp (digits c List.mem_cons_self)
      have next : hexFrom n (c :: text) = hexFrom (n * 16 + d) text := by
        rw [hexFrom, hexFrom, List.foldl_cons, digit, Option.getD_some]
      have step : hexStep (some (n % 2 ^ 64)) c = some ((n * 16 + d) % 2 ^ 64) := by
        rw [hexStep, Option.bind_some, digit, Option.map_some]
        congr 1
        omega
      rw [List.foldl_cons, step, next]
      exact ih (fun c member => digits c (List.mem_cons_of_mem _ member)) _

/-- Once a byte is no digit, the rest of the text is not looked at. -/
theorem foldl_hexStep_none (text : Bytes) : text.foldl hexStep none = none := by
  induction text with
  | nil => rfl
  | cons c text ih => exact ih

/-- `HexToDec` of a numeral. -/
theorem HexToDec_digits {text : Bytes} (digits : ∀ c ∈ text, (hexDigit c).isSome = true) :
    HttpParser.HexToDec text = toInt (hexFrom 0 text) := by
  have folds := foldl_hexStep digits 0
  rw [Nat.zero_mod] at folds
  rw [HexToDec_fold, folds]
  simp only [toInt, Int.bmod_def]
  omega

/-- `HexToDec` of a text with another byte. -/
theorem HexToDec_other {text : Bytes} {c : UInt8} (member : c ∈ text)
    (other : hexDigit c = none) : HttpParser.HexToDec text = -1 := by
  have fails : ∀ n, text.foldl hexStep n = none := by
    induction text with
    | nil => exact absurd member List.not_mem_nil
    | cons d text ih =>
        intro n
        rw [List.foldl_cons]
        rcases List.mem_cons.mp member with rfl | later
        · have stops : hexStep n c = none := by
            rw [hexStep, other]
            cases n <;> rfl
          rw [stops, foldl_hexStep_none]
        · exact ih later _
  rw [HexToDec_fold, fails]

/-- `HexToDec` reads a numeral that fits into an `int`. -/
theorem HexToDec_eq {text : Bytes} (digits : ∀ c ∈ text, (hexDigit c).isSome = true)
    (small : hexFrom 0 text < 2 ^ 31) : HttpParser.HexToDec text = hexFrom 0 text := by
  rw [HexToDec_digits digits, toInt_of_lt small]

/-- The size that a size line should be taken for: its value, if it is a hexadecimal numeral
below `2^31`, and otherwise what makes the parser fail. -/
def wantedSize (text : Bytes) : Nat :=
  if text ≠ [] ∧ (∀ c ∈ text, (hexDigit c).isSome = true) ∧ hexFrom 0 text < 2 ^ 31
    then hexFrom 0 text
  else 2 ^ 64 - 1

/-- **Which size lines are read as they should be.** For every text, the size that
`parseChunkedBody` takes it for is the wanted one, if and only if there is a byte that is no
digit, or the text is not empty and its value is below `2^31`, or the value is `2^32 - 1`
modulo `2^32`. -/
theorem chunk_size_exact_iff (text : Bytes) :
    toSize (HttpParser.HexToDec text) = wantedSize text ↔
      (∃ c ∈ text, hexDigit c = none) ∨ text ≠ [] ∧ hexFrom 0 text < 2 ^ 31 ∨
        hexFrom 0 text % 2 ^ 32 = 2 ^ 32 - 1 := by
  by_cases digits : ∀ c ∈ text, (hexDigit c).isSome = true
  · have every : ¬∃ c ∈ text, hexDigit c = none := by
      rintro ⟨c, member, other⟩
      have digit := digits c member
      rw [other] at digit
      cases digit
    rw [or_iff_right every]
    by_cases small : text ≠ [] ∧ hexFrom 0 text < 2 ^ 31
    · refine iff_of_true ?_ (Or.inl small)
      rw [wantedSize, if_pos ⟨small.1, digits, small.2⟩, HexToDec_eq digits small.2,
        toSize_natCast (by omega)]
    · rw [or_iff_right small, wantedSize, if_neg fun all => small ⟨all.1, all.2.2⟩,
        HexToDec_digits digits, toSize, toInt, Int.bmod_def]
      omega
  · obtain ⟨c, member, other⟩ : ∃ c ∈ text, hexDigit c = none := by
      by_contra every
      refine digits fun c member => ?_
      by_contra other
      exact every ⟨c, member, Option.not_isSome_iff_eq_none.mp other⟩
    refine iff_of_true ?_ (Or.inl ⟨c, member, other⟩)
    rw [HexToDec_other member other, wantedSize, if_neg fun all => digits all.2.1]
    rfl

/-- Lines that are no numerals below `2^31`. -/
def oddSizes : List Bytes :=
  [ascii "", ascii "100000000", ascii "100000005", ascii "80000000"]

/-- The first two end the body, the third is the size 5 and the last `2^64 - 2^31`. -/
theorem not_chunk_sizes_exact :
    oddSizes.map (fun text => toSize (HttpParser.HexToDec text)) = [0, 0, 5, 2 ^ 64 - 2 ^ 31] ∧
      ∀ text ∈ oddSizes, toSize (HttpParser.HexToDec text) ≠ wantedSize text := by
  decide

/-! ## Chunks -/

/-- A chunk as it is sent. -/
structure Chunk : Type where
  size : Bytes
  data : Bytes
  digits : ∀ c ∈ size, (hexDigit c).isSome = true
  size_eq : hexFrom 0 size = data.length
  data_ne_nil : data ≠ []
  data_short : data.length < 2 ^ 31 - 2

namespace Chunk

def text (chunk : Chunk) : Bytes := chunk.size ++ kCRLF ++ chunk.data ++ kCRLF

/-- What `parseChunkedBody` keeps of a chunk. -/
def kept (chunk : Chunk) : Bytes := chunk.data ++ kCRLF

theorem size_isLine (chunk : Chunk) : IsLine chunk.size := by
  intro member
  have digit := chunk.digits 13 member
  rw [show hexDigit 13 = none by decide] at digit
  cases digit

theorem toSize_size (chunk : Chunk) :
    toSize (HttpParser.HexToDec chunk.size) = chunk.data.length := by
  have short := chunk.data_short
  have small : hexFrom 0 chunk.size < 2 ^ 31 := by
    rw [chunk.size_eq]
    omega
  rw [HexToDec_eq chunk.digits small, chunk.size_eq, toSize_natCast (by omega)]

end Chunk

/-- A chunked body: the chunks, and an empty one. -/
def chunkedBody (chunks : List Chunk) : Bytes :=
  chunks.flatMap Chunk.text ++ (ascii "0" ++ kCRLF ++ kCRLF)

section

variable {μ : Type} [HttpMessage μ]

/-- The size line and the data of a chunk. -/
theorem settles_chunk (chunk : Chunk) (body : Bytes) (msg : μ) {rest left : Bytes}
    {v : Verdict (Phase × μ) (Ended μ)}
    (next : Settles (machine μ) (.chunkHead (body ++ chunk.kept), msg) rest v left) :
    Settles (machine μ) (.chunkHead body, msg) (chunk.text ++ rest) v left := by
  have short := chunk.data_short
  have some_data := List.length_pos_iff.mpr chunk.data_ne_nil
  have whole : chunk.text ++ rest = chunk.size ++ kCRLF ++ (chunk.kept ++ rest) := by
    simp only [Chunk.text, Chunk.kept, List.append_assoc]
  have head : (machine μ).step (.chunkHead body, msg) (chunk.size ++ kCRLF ++ (chunk.kept ++ rest)) =
      .go (.chunkData chunk.data.length body, msg) (chunk.size.length + 2) := by
    refine (byLine_line chunk.size_isLine _ _).trans ?_
    simp only [afterChunkHead, chunk.toSize_size]
    rw [if_neg (by omega), if_neg (by omega)]
  have length : (chunk.data.length + 2) % 2 ^ 64 = chunk.kept.length := by
    rw [Nat.mod_eq_of_lt (by omega), Chunk.kept, List.length_append]
    rfl
  have data : (machine μ).step (.chunkData chunk.data.length body, msg) (chunk.kept ++ rest) =
      .go (.chunkHead (body ++ chunk.kept), msg) chunk.kept.length := by
    change (if _ ≤ _ then _ else _) = _
    rw [length, if_pos (by rw [List.length_append]; omega), List.take_left]
  rw [whole]
  refine .go head ?_
  rw [drop_line]
  refine .go data ?_
  rw [List.drop_left]
  exact next

/-- A chunked body leaves the parser with the data of the chunks, each with the line
end behind it, and with the last line end unread. -/
theorem settles_chunks (chunks : List Chunk) (body : Bytes) (msg : μ) :
    Settles (machine μ) (.chunkHead body, msg) (chunkedBody chunks)
      (.stopped ⟨.ok true, HttpMessage.setBody (body ++ chunks.flatMap Chunk.kept) msg⟩) kCRLF := by
  induction chunks generalizing body with
  | nil =>
      rw [List.flatMap_nil, List.append_nil]
      exact .stop (n := 3) rfl
  | cons chunk chunks ih =>
      have next := ih (body ++ chunk.kept)
      rw [List.append_assoc] at next
      rw [chunkedBody, List.flatMap_cons, List.flatMap_cons, List.append_assoc]
      exact settles_chunk chunk body msg next

/-- A message with a chunked body. -/
def chunkedMessage (first : Bytes) (lines : List Bytes) (chunks : List Chunk) : Bytes :=
  first ++ kCRLF ++ (joinLines lines ++ (kCRLF ++ chunkedBody chunks))

/-- The parse returns true, and the body is the data of the chunks. -/
def Decodes (getBody : μ → Bytes) (chunks : List Chunk) (result : Except Fault Bool × μ) : Prop :=
  result.1 = .ok true ∧ getBody result.2 = chunks.flatMap Chunk.data

/-- The line ends that are kept make a body of any chunks too long. -/
theorem kept_eq_data_iff (chunks : List Chunk) :
    chunks.flatMap Chunk.kept = chunks.flatMap Chunk.data ↔ chunks = [] := by
  have lengths : (chunks.flatMap Chunk.kept).length =
      (chunks.flatMap Chunk.data).length + 2 * chunks.length := by
    induction chunks with
    | nil => rfl
    | cons chunk chunks ih =>
        rw [List.flatMap_cons, List.flatMap_cons, List.length_append, List.length_append, ih,
          Chunk.kept, List.length_append, List.length_cons]
        change chunk.data.length + 2 + _ = _
        omega
  constructor
  · intro same
    rw [same] at lengths
    exact List.length_eq_zero_iff.mp (by omega)
  · rintro rfl
    rfl

/-- What a parser makes of a message with a chunked body. -/
theorem decodes_iff (getBody : μ → Bytes)
    (body_set : ∀ body msg, getBody (HttpMessage.setBody body msg) = body)
    (first : Bytes) (lines : List Bytes) {chunks : List Chunk} (first_line : IsLine first)
    (header_lines : ∀ line ∈ lines, IsLine line ∧ line ≠ [])
    (announced : ∃ line ∈ lines, announcesChunks line = true) (msg : μ)
    {reads : List (Read (HttpMessage.maxBufferSize μ))}
    (carried : bytesOf reads = chunkedMessage first lines chunks) :
    Decodes getBody chunks
        (parsed (HttpParser.parseMessage (reads.length + 2) (.ofReads reads) { msg := msg })) ↔
      (∃ msg', HttpMessage.parseFirstLine first msg = .ok true msg') ∧
        headersAccepted false lines = true ∧ chunks = [] := by
  -- a parse that refuses the message does not decode it
  have refuses : ∀ {r : Ended μ} {left : Bytes}, Refused r →
      Settles (machine μ) (.firstLine, msg) (chunkedMessage first lines chunks) (.stopped r) left →
      ¬Decodes getBody chunks
        (parsed (HttpParser.parseMessage (reads.length + 2) (.ofReads reads) { msg := msg })) := by
    intro r left refused settles decodes
    rw [← carried] at settles
    rw [Decodes, parsed_of_settles settles] at decodes
    exact refused decodes.1
  by_cases accepted : ∃ msg', HttpMessage.parseFirstLine first msg = .ok true msg'
  · obtain ⟨msg', parsed_first⟩ := accepted
    rcases settles_headers header_lines false 0 msg' (chunkedBody chunks) with
      ⟨read, len, msg'', through⟩ | ⟨unread, r, left, refused, settles⟩
    · have chunked : (false || lines.any announcesChunks) = true := by
        rw [Bool.false_or, List.any_eq_true]
        exact announced
      rw [chunked] at through
      have settles := settles_firstLine first_line parsed_first
        (through _ _ (settles_chunks chunks [] msg''))
      rw [← chunkedMessage, ← carried] at settles
      have whole := parsed_of_settles settles
      rw [Decodes, whole, body_set, List.nil_append, kept_eq_data_iff]
      exact ⟨fun decodes => ⟨⟨msg', parsed_first⟩, read, decodes.2⟩,
        fun holds => ⟨rfl, holds.2.2⟩⟩
    · refine iff_of_false (refuses refused (settles_firstLine first_line parsed_first settles)) ?_
      rintro ⟨-, read, -⟩
      rw [unread] at read
      cases read
  · obtain ⟨r, left, refused, settles⟩ := settles_firstLine_refused first_line
      (joinLines lines ++ (kCRLF ++ chunkedBody chunks)) (fun msg' same => accepted ⟨msg', same⟩)
    exact iff_of_false (refuses refused settles) fun holds => accepted holds.1

end

/-- **Decoding of chunked bodies.** A message whose headers announce chunks, with its
body in any chunks and cut into any reads, is decoded exactly when its head is
accepted and there are no chunks: every chunk leaves its line end in the body. -/
theorem chunks_decoded_iff (first : Bytes) (lines : List Bytes) (chunks : List Chunk)
    (first_line : IsLine first) (header_lines : ∀ line ∈ lines, IsLine line ∧ line ≠ [])
    (announced : ∃ line ∈ lines, announcesChunks line = true) :
    (∀ (req : HttpRequest) (reads : List (Read 4096)),
      bytesOf reads = chunkedMessage first lines chunks →
        (Decodes HttpRequest.body chunks (parsed (parseRequest (.ofReads reads) req)) ↔
          isRequestLine first = true ∧ headersAccepted false lines = true ∧ chunks = [])) ∧
    (∀ (rsp : HttpResponse) (reads : List (Read (HttpMessage.maxBufferSize HttpResponse))),
      bytesOf reads = chunkedMessage first lines chunks →
        (Decodes HttpResponse.body chunks (parsed (parseResponse (.ofReads reads) rsp)) ↔
          isStatusLine first = true ∧ headersAccepted false lines = true ∧ chunks = [])) := by
  constructor
  · intro req reads carried
    have decodes := decodes_iff HttpRequest.body (fun _ _ => rfl) first lines first_line
      header_lines announced req carried
    obtain ⟨req', read⟩ := HttpRequest.parseFirstLine_accepts first req
    have accepted : (∃ req', HttpMessage.parseFirstLine first req = .ok true req') ↔
        isRequestLine first = true := by
      change (∃ req', HttpRequest.parseFirstLine first req = .ok true req') ↔ _
      rw [read]
      simp
    rw [accepted] at decodes
    exact decodes
  · intro rsp reads carried
    have decodes := decodes_iff HttpResponse.body (fun _ _ => rfl) first lines first_line
      header_lines announced rsp carried
    have accepted : (∃ rsp', HttpMessage.parseFirstLine first rsp = .ok true rsp') ↔
        isStatusLine first = true := by
      change (∃ rsp', HttpResponse.parseFirstLine first rsp = .ok true rsp') ↔ _
      rcases HttpResponse.parseFirstLine_cases first rsp with
        ⟨-, other, e, rsp', threw⟩ | ⟨-, rsp', read⟩
      · rw [threw, other]
        simp
      · rw [read]
        simp
    rw [accepted] at decodes
    exact decodes

/-- A request without chunks, in two reads. -/
theorem no_chunks_decoded :
    Decodes HttpRequest.body [] (parsed (parseRequest (.ofReads
      [⟨ascii "GET / HTTP/1.1\r\nTransfer-Encoding: chu", by decide, by decide⟩,
        ⟨ascii "nked\r\n\r\n0\r\n\r\n", by decide, by decide⟩]) (HttpRequest.new 0x11 false))) :=
  ((chunks_decoded_iff (ascii "GET / HTTP/1.1") [ascii "Transfer-Encoding: chunked"] []
    (by decide) (by decide) (by decide)).1 _ _ (by decide)).mpr ⟨by decide, by decide, rfl⟩

/-- The chunk `abc`. -/
def abc : Chunk where
  size := ascii "3"
  data := ascii "abc"
  digits := by decide
  size_eq := by decide
  data_ne_nil := by decide
  data_short := by decide

/-- A request with the one chunk `abc`, in one read, is not decoded. -/
theorem not_chunks_decoded :
    ¬Decodes HttpRequest.body [abc] (parsed (parseRequest (.ofReads
      [⟨ascii "GET / HTTP/1.1\r\nTransfer-Encoding: chunked\r\n\r\n3\r\nabc\r\n0\r\n\r\n",
        by decide, by decide⟩]) (HttpRequest.new 0x11 false))) := by
  intro decodes
  have holds := (decodes_iff HttpRequest.body (fun _ _ => rfl)
    (ascii "GET / HTTP/1.1") [ascii "Transfer-Encoding: chunked"] (by decide) (by decide)
    (by decide) (HttpRequest.new 0x11 false) (by decide)).mp decodes
  exact absurd holds.2.2 (List.cons_ne_nil _ _)

end Reyao.Http
