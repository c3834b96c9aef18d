import Reyao.Http.Parser

/-!
# The request line

`parseFirstLine` cuts the line at its first two blanks, and the target at its first slash,
at the first `#` behind it and at the first `?` before that. `Target` is a target in its
parts; `parseFirstLine_target` says what a line made of such parts is parsed to, and
`request_line_grammar` that there are no other lines.
-/

namespace Reyao.Http

/-! ## Bytes up to a delimiter -/

section

variable {d : UInt8} {a : Bytes}

theorem other_of_free (free : d ∉ a) : ∀ c ∈ a, decide (c ≠ d) = true := by
  intro c member
  refine decide_eq_true ?_
  rintro rfl
  exact free member

theorem takeWhile_delimiter (free : d ∉ a) (b : Bytes) :
    (a ++ d :: b).takeWhile (· ≠ d) = a := by
  rw [List.takeWhile_append_of_pos (other_of_free free), List.takeWhile_cons_of_neg (by simp),
    List.append_nil]

theorem dropWhile_delimiter (free : d ∉ a) (b : Bytes) :
    (a ++ d :: b).dropWhile (· ≠ d) = d :: b := by
  rw [List.dropWhile_append_of_pos (other_of_free free), List.dropWhile_cons_of_neg (by simp)]

theorem dropWhile_no_delimiter (free : d ∉ a) : a.dropWhile (· ≠ d) = [] := by
  rw [List.dropWhile_eq_nil_iff]
  exact other_of_free free

/-- A string is cut at the first delimiter, if there is one. -/
theorem cut_cases (d : UInt8) (s : Bytes) :
    (d ∉ s ∧ s.dropWhile (· ≠ d) = []) ∨
      ∃ a b, s = a ++ d :: b ∧ d ∉ a ∧ s.dropWhile (· ≠ d) = d :: b := by
  by_cases member : d ∈ s
  · right
    obtain ⟨a, b, rfl, free⟩ := List.eq_append_cons_of_mem member
    exact ⟨a, b, rfl, free, dropWhile_delimiter free b⟩
  · exact Or.inl ⟨member, dropWhile_no_delimiter member⟩

end

/-! ## Targets -/

/-- A part of the target with its delimiter. -/
def withDelimiter (d : UInt8) : Option Bytes → Bytes
  | none => []
  | some part => d :: part

/-- The target of a request line in its parts. -/
structure Target : Type where
  /-- What stands before the first slash. -/
  pre : Bytes
  path : Bytes
  query : Option Bytes
  fragment : Option Bytes

namespace Target

/-- The target from its first slash on, without the fragment. -/
def main (t : Target) : Bytes := t.path ++ withDelimiter 63 t.query

def text (t : Target) : Bytes := t.pre ++ (t.main ++ withDelimiter 35 t.fragment)

structure Valid (t : Target) : Prop where
  pre_free : (47 : UInt8) ∉ t.pre
  path_slash : t.path.head? = some 47
  path_free : (63 : UInt8) ∉ t.path ∧ (35 : UInt8) ∉ t.path
  query_free : ∀ query, t.query = some query → (35 : UInt8) ∉ query

variable {t : Target}

/-- The target from its slash on. -/
theorem Valid.main_eq (valid : t.Valid) : ∃ rest, t.path = 47 :: rest := by
  have head := valid.path_slash
  cases path : t.path with
  | nil =>
      rw [path] at head
      cases head
  | cons c rest =>
      rw [path, List.head?_cons, Option.some.injEq] at head
      rw [head]
      exact ⟨rest, rfl⟩

theorem Valid.main_free (valid : t.Valid) : (35 : UInt8) ∉ t.main := by
  rw [main, List.mem_append, not_or]
  refine ⟨valid.path_free.2, ?_⟩
  cases query : t.query with
  | none => exact List.not_mem_nil
  | some part =>
      rw [withDelimiter, List.mem_cons, not_or]
      exact ⟨by decide, valid.query_free part query⟩

/-- Every text with a slash is a target. -/
theorem exists_of_slash {text : Bytes} (slash : (47 : UInt8) ∈ text) :
    ∃ t : Target, t.Valid ∧ t.text = text := by
  obtain ⟨pre, rest, rfl, pre_free⟩ := List.eq_append_cons_of_mem slash
  -- the cut at a delimiter leaves the slash in front
  have cut : ∀ (d : UInt8) (rest : Bytes), (47 : UInt8) ≠ d → ∃ front part,
      47 :: rest = 47 :: front ++ withDelimiter d part ∧ d ∉ (47 : UInt8) :: front := by
    intro d rest other
    rcases cut_cases d rest with ⟨free, -⟩ | ⟨front, part, rfl, free, -⟩
    · refine ⟨rest, none, (List.append_nil _).symm, ?_⟩
      simp [Ne.symm other, free]
    · refine ⟨front, some part, rfl, ?_⟩
      simp [Ne.symm other, free]
  obtain ⟨main, fragment, whole, main_free⟩ := cut 35 rest (by decide)
  obtain ⟨path, query, front, path_free⟩ := cut 63 main (by decide)
  rw [front, List.mem_append, not_or] at main_free
  refine ⟨⟨pre, 47 :: path, query, fragment⟩, ⟨pre_free, rfl, ⟨path_free, main_free.1⟩, ?_⟩, ?_⟩
  · rintro part rfl
    exact fun member => main_free.2 (List.mem_cons_of_mem _ member)
  · rw [text, Target.main, ← front, ← whole]

end Target

namespace HttpRequest

theorem parseURI_delimiter {d : UInt8} {a : Bytes} (free : d ∉ a) (part : Option Bytes) :
    parseURI (a ++ withDelimiter d part) d = (a, part) := by
  rw [parseURI]
  cases part with
  | none => rw [withDelimiter, List.append_nil, dropWhile_no_delimiter free]
  | some part => rw [withDelimiter, dropWhile_delimiter free, takeWhile_delimiter free]

/-- What a request line sets. -/
def withLine (method : Bytes) (t : Target) (version : Nat) (req : HttpRequest) : HttpRequest :=
  { req with
    method := StringToHttpMethod method
    version := version
    path := t.path
    query := t.query.getD req.query
    fragment := t.fragment.getD req.fragment }

/-- A line of a method, a target and a version is parsed into them. -/
theorem parseFirstLine_target {method version : Bytes} {t : Target} {number : Nat}
    (method_free : (32 : UInt8) ∉ method) (valid : t.Valid) (text_free : (32 : UInt8) ∉ t.text)
    (known : versionOf version = some number) (req : HttpRequest) :
    parseFirstLine (method ++ 32 :: (t.text ++ 32 :: version)) req =
      .ok true (req.withLine method t number) := by
  obtain ⟨rest, path⟩ := valid.main_eq
  have slash : t.text.dropWhile (· ≠ 47) = t.main ++ withDelimiter 35 t.fragment := by
    rw [Target.text, Target.main, path]
    exact dropWhile_delimiter valid.pre_free _
  have some_text : t.main ++ withDelimiter 35 t.fragment ≠ [] := by
    rw [Target.main, path]
    exact List.cons_ne_nil _ _
  have pathSlash : t.path.dropWhile (· ≠ 47) = t.path ∧ t.path ≠ [] := by
    rw [path]
    exact ⟨rfl, List.cons_ne_nil _ _⟩
  have queryCut : parseURI t.main 63 = (t.path, t.query) :=
    parseURI_delimiter valid.path_free.1 t.query
  rw [parseFirstLine]
  simp only [dropWhile_delimiter method_free, takeWhile_delimiter method_free,
    dropWhile_delimiter text_free, takeWhile_delimiter text_free, known, slash,
    parseURI_delimiter valid.main_free, queryCut, pathSlash.1, if_neg some_text,
    if_neg pathSlash.2]
  rfl

end HttpRequest

/-! ## The grammar -/

/-- A line of a method, a target with a slash and a version, with a blank between them. -/
structure RequestLine (line method target version : Bytes) : Prop where
  parts : line = method ++ 32 :: (target ++ 32 :: version)
  method_free : (32 : UInt8) ∉ method
  target_free : (32 : UInt8) ∉ target
  version : version = ascii "HTTP/1.0" ∨ version = ascii "HTTP/1.1"
  slash : (47 : UInt8) ∈ target

theorem versionOf_isSome {version : Bytes}
    (known : version = ascii "HTTP/1.0" ∨ version = ascii "HTTP/1.1") :
    ∃ number, HttpRequest.versionOf version = some number := by
  rcases known with rfl | rfl
  · exact ⟨0x10, by decide⟩
  · exact ⟨0x11, by decide⟩

theorem of_versionOf {version : Bytes} {number : Nat}
    (known : HttpRequest.versionOf version = some number) :
    version = ascii "HTTP/1.0" ∨ version = ascii "HTTP/1.1" := by
  rw [HttpRequest.versionOf] at known
  split at known
  · exact Or.inl ‹_›
  · split at known
    · exact Or.inr ‹_›
    · cases known

/-- Only request lines are accepted. -/
theorem requestLine_of_accepted {line : Bytes} {req req' : HttpRequest}
    (accepted : HttpRequest.parseFirstLine line req = .ok true req') :
    ∃ method target version, RequestLine line method target version := by
  rw [HttpRequest.parseFirstLine] at accepted
  rcases cut_cases 32 line with ⟨-, uncut⟩ | ⟨method, rest, whole, method_free, cut⟩
  · rw [uncut] at accepted
    cases accepted
  · rw [cut] at accepted
    rcases cut_cases 32 rest with ⟨-, uncut'⟩ | ⟨target, version, whole', target_free, cut'⟩
    · simp only [uncut'] at accepted
      cases accepted
    · simp only [cut'] at accepted
      cases known : HttpRequest.versionOf version with
      | none =>
          rw [known] at accepted
          cases accepted
      | some number =>
          simp only [known, whole', takeWhile_delimiter target_free] at accepted
          rcases cut_cases 47 target with ⟨-, unslashed⟩ | ⟨pre, path, slash, -, -⟩
          · rw [unslashed] at accepted
            cases accepted
          · refine ⟨method, target, version, ?_, method_free, target_free, of_versionOf known, ?_⟩
            · rw [whole, whole']
            · rw [slash]
              simp

/-- What a line that is accepted was made of and has set. -/
theorem withLine_of_accepted {line : Bytes} {req req' : HttpRequest}
    (accepted : HttpRequest.parseFirstLine line req = .ok true req') :
    ∃ (method version : Bytes) (t : Target) (number : Nat), t.Valid ∧
      RequestLine line method t.text version ∧ HttpRequest.versionOf version = some number ∧
      req' = req.withLine method t number := by
  obtain ⟨method, target, version, is_line⟩ := requestLine_of_accepted accepted
  obtain ⟨t, valid, rfl⟩ := Target.exists_of_slash is_line.slash
  obtain ⟨number, known⟩ := versionOf_isSome is_line.version
  rw [is_line.parts, HttpRequest.parseFirstLine_target is_line.method_free valid
    is_line.target_free known] at accepted
  injection accepted with _ same
  exact ⟨method, version, t, number, valid, is_line, known, same.symm⟩

/-- The methods by their names. -/
theorem StringToHttpMethod_eq_iff {m : HttpMethod} (valid : m ≠ .INVALID_METHOD) (s : Bytes) :
    StringToHttpMethod s = m ↔ cstr s = HttpMethodToString m := by
  rw [StringToHttpMethod]
  constructor
  · intro named
    split at named
    · cases named
      assumption
    · split at named
      · cases named
        assumption
      · split at named
        · cases named
          assumption
        · exact absurd named.symm valid
  · intro named
    rw [named]
    cases m with
    | GET => decide
    | HEAD => decide
    | POST => decide
    | INVALID_METHOD => exact absurd rfl valid

/-- **The grammar of request lines.** A line is accepted exactly when it is a method, a
target with a slash and a version. The method is then the one of that name, and the target
from its first slash on falls into a path without `?` and `#`, a query without `#` and a
fragment; parts that are absent leave the request as it is. -/
theorem request_line_grammar (line : Bytes) (req : HttpRequest) :
    ((∃ req', HttpRequest.parseFirstLine line req = .ok true req') ↔
      ∃ method target version, RequestLine line method target version) ∧
    ∀ method target version, RequestLine line method target version →
      ∃ (t : Target) (number : Nat) (req' : HttpRequest), t.Valid ∧ t.text = target ∧
        HttpRequest.versionOf version = some number ∧
        HttpRequest.parseFirstLine line req = .ok true req' ∧
        (∀ m, m ≠ .INVALID_METHOD → (req'.method = m ↔ cstr method = HttpMethodToString m)) ∧
        req' = { req with
          method := req'.method
          version := number
          path := t.path
          query := t.query.getD req.query
          fragment := t.fragment.getD req.fragment } := by
  have parsed : ∀ method target version, RequestLine line method target version →
      ∃ (t : Target) (number : Nat), t.Valid ∧ t.text = target ∧
        HttpRequest.versionOf version = some number ∧
        HttpRequest.parseFirstLine line req = .ok true (req.withLine method t number) := by
    intro method target version is_line
    obtain ⟨t, valid, rfl⟩ := Target.exists_of_slash is_line.slash
    obtain ⟨number, known⟩ := versionOf_isSome is_line.version
    refine ⟨t, number, valid, rfl, known, ?_⟩
    rw [is_line.parts]
    exact HttpRequest.parseFirstLine_target is_line.method_free valid is_line.target_free known req
  refine ⟨⟨fun ⟨req', accepted⟩ => requestLine_of_accepted accepted, ?_⟩, ?_⟩
  · rintro ⟨method, target, version, is_line⟩
    obtain ⟨t, number, -, -, -, accepted⟩ := parsed method target version is_line
    exact ⟨_, accepted⟩
  · intro method target version is_line
    obtain ⟨t, number, valid, text, known, accepted⟩ := parsed method target version is_line
    exact ⟨t, number, _, valid, text, known, accepted,
      fun m named => StringToHttpMethod_eq_iff named method, rfl⟩

end Reyao.Http
