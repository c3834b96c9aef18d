import Reyao.Cxx
import Mathlib.Data.List.Nodup

/-!
# The table of servlets (`http/http_servlet.h`, `http/http_servlet.cc`)

`ServletDispatch` keeps servlets for exact paths in a map and servlets for patterns in a
vector, in the order in which they were registered. A pattern that is registered again goes
to the end; the loop that takes its old entry out goes on with the iterator to it, and so
runs past the end of the vector when that entry is the last.

`liveGlobals` and `liveServlet` say what is registered after a history of calls, and
`servlet_dispatch_iff` for which histories the table serves that.
-/

namespace Reyao.Http

variable {S : Type}

/-- A `ServletDispatch` with servlets of the type `S`. -/
structure ServletDispatch (S : Type) : Type where
  /-- `servlets_`. -/
  servlets : Bytes → Option S := fun _ => none
  /-- `globals_`. -/
  globals : List (Bytes × S) := []
  /-- `default_`. -/
  default : S

namespace ServletDispatch

/-- `addServlet(uri, servlet)`, and with a function for the servlet. -/
def addServlet (uri : Bytes) (servlet : S) (d : ServletDispatch S) : ServletDispatch S :=
  { d with servlets := Function.update d.servlets uri (some servlet) }

/-- `delServlet(uri)`. -/
def delServlet (uri : Bytes) (d : ServletDispatch S) : ServletDispatch S :=
  { d with servlets := Function.update d.servlets uri none }

/-- The loop of `addGlobalServlet`, on the part of the vector from the iterator to the end.
After `erase` the iterator points to what came behind the entry; `it++` skips it, and is
outside the vector when nothing came behind. -/
def eraseAll (uri : Bytes) : List (Bytes × S) → Except Fault (List (Bytes × S))
  | [] => .ok []
  | entry :: rest =>
      if entry.1 = uri then
        match rest with
        | [] => .error .outOfBounds
        | next :: rest => do return next :: (← eraseAll uri rest)
      else do return entry :: (← eraseAll uri rest)

/-- `addGlobalServlet(uri, servlet)`, and with a function for the servlet. -/
def addGlobalServlet (uri : Bytes) (servlet : S) (d : ServletDispatch S) :
    Except Fault (ServletDispatch S) := do
  let globals ← eraseAll uri d.globals
  return { d with globals := globals ++ [(uri, servlet)] }

/-- `delGlobalServlet(uri)`: its loop ends at the first entry it takes out. -/
def delGlobalServlet (uri : Bytes) (d : ServletDispatch S) : ServletDispatch S :=
  { d with globals := d.globals.eraseP fun entry => decide (entry.1 = uri) }

/-- `getMatchServlet(uri)`; `fnmatch` gets C strings. -/
def getMatchServlet (fnmatch : Bytes → Bytes → Bool) (uri : Bytes) (d : ServletDispatch S) : S :=
  match d.servlets uri with
  | some servlet => servlet
  | none =>
      match d.globals.find? fun entry => fnmatch (cstr entry.1) (cstr uri) with
      | some entry => entry.2
      | none => d.default

end ServletDispatch

/-- A call that changes the table. -/
inductive ServletCall (S : Type) : Type
  | addServlet (uri : Bytes) (servlet : S)
  | delServlet (uri : Bytes)
  | addGlobalServlet (uri : Bytes) (servlet : S)
  | delGlobalServlet (uri : Bytes)

namespace ServletCall

def exec (d : ServletDispatch S) : ServletCall S → Except Fault (ServletDispatch S)
  | addServlet uri servlet => .ok (d.addServlet uri servlet)
  | delServlet uri => .ok (d.delServlet uri)
  | addGlobalServlet uri servlet => d.addGlobalServlet uri servlet
  | delGlobalServlet uri => .ok (d.delGlobalServlet uri)

/-- The call is about the servlet of this path. -/
def isExact (uri : Bytes) : ServletCall S → Bool
  | addServlet u _ => decide (u = uri)
  | delServlet u => decide (u = uri)
  | _ => false

/-- The call is about the servlet of this pattern. -/
def isGlobal (pattern : Bytes) : ServletCall S → Bool
  | addGlobalServlet u _ => decide (u = pattern)
  | delGlobalServlet u => decide (u = pattern)
  | _ => false

/-- The servlet that the call registers for its path or pattern. -/
def servlet? : ServletCall S → Option S
  | addServlet _ servlet => some servlet
  | addGlobalServlet _ servlet => some servlet
  | _ => none

end ServletCall

/-! ## What is registered -/

/-- The latest registration for a path, if the last call about the path is one. -/
def liveServlet (uri : Bytes) (calls : List (ServletCall S)) : Option S :=
  (calls.filter (·.isExact uri)).getLast?.bind ServletCall.servlet?

/-- The registrations of patterns that no later call is about, in their order. -/
def liveGlobals : List (ServletCall S) → List (Bytes × S)
  | [] => []
  | .addGlobalServlet pattern servlet :: later =>
      if later.any (·.isGlobal pattern) then liveGlobals later
      else (pattern, servlet) :: liveGlobals later
  | _ :: later => liveGlobals later

/-- The servlet for a path: the one registered for it, else that of the earliest live
pattern that matches it, else the default. -/
def dispatched (fnmatch : Bytes → Bytes → Bool) (default : S) (calls : List (ServletCall S))
    (uri : Bytes) : S :=
  (liveServlet uri calls).getD
    (((liveGlobals calls).find? fun entry => fnmatch (cstr entry.1) (cstr uri)).map Prod.snd
      |>.getD default)

/-- What a call adds to the live patterns. -/
def ServletCall.entry : ServletCall S → List (Bytes × S)
  | .addGlobalServlet pattern servlet => [(pattern, servlet)]
  | _ => []

theorem mem_liveGlobals {calls : List (ServletCall S)} {entry : Bytes × S}
    (member : entry ∈ liveGlobals calls) : calls.any (·.isGlobal entry.1) = true := by
  induction calls with
  | nil => cases member
  | cons call later ih =>
      rw [List.any_cons, Bool.or_eq_true]
      cases call with
      | addGlobalServlet pattern servlet =>
          rw [liveGlobals] at member
          split at member
          · exact Or.inr (ih member)
          · rcases List.mem_cons.mp member with rfl | member
            · exact Or.inl (decide_eq_true rfl)
            · exact Or.inr (ih member)
      | _ => exact Or.inr (ih member)

/-- No pattern is live twice. -/
theorem nodup_liveGlobals (calls : List (ServletCall S)) :
    ((liveGlobals calls).map Prod.fst).Nodup := by
  induction calls with
  | nil => exact List.nodup_nil
  | cons call later ih =>
      cases call with
      | addGlobalServlet pattern servlet =>
          rw [liveGlobals]
          split
          · exact ih
          · rename_i last
            rw [List.map_cons, List.nodup_cons]
            refine ⟨fun member => last ?_, ih⟩
            obtain ⟨entry, live, same⟩ := List.mem_map.mp member
            have about := mem_liveGlobals live
            rwa [same] at about
      | _ => exact ih

/-- One more call: what it is about is no longer live, and what it registers comes last. -/
theorem liveGlobals_snoc (calls : List (ServletCall S)) (call : ServletCall S) :
    liveGlobals (calls ++ [call]) =
      (liveGlobals calls).filter (fun entry => !call.isGlobal entry.1) ++ call.entry := by
  induction calls with
  | nil => cases call <;> rfl
  | cons first later ih =>
      cases first with
      | addGlobalServlet pattern servlet =>
          rw [List.cons_append, liveGlobals, liveGlobals, List.any_append, List.any_cons,
            List.any_nil, Bool.or_false, ih]
          cases later.any (·.isGlobal pattern) with
          | true => rfl
          | false =>
              rw [Bool.false_or, if_neg Bool.false_ne_true, List.filter_cons]
              cases call.isGlobal pattern <;> rfl
      | _ => exact ih

/-- A call about a path leaves the patterns alone. -/
theorem liveGlobals_snoc_exact {calls : List (ServletCall S)} {call : ServletCall S}
    (exact : ∀ pattern, call.isGlobal pattern = false) (adds : call.entry = []) :
    liveGlobals (calls ++ [call]) = liveGlobals calls := by
  simp only [liveGlobals_snoc, exact, adds, List.append_nil]
  exact List.filter_eq_self.mpr fun _ _ => rfl

theorem liveServlet_snoc (uri : Bytes) (calls : List (ServletCall S)) (call : ServletCall S) :
    liveServlet uri (calls ++ [call]) =
      if call.isExact uri then call.servlet? else liveServlet uri calls := by
  rw [liveServlet, List.filter_append, List.filter_singleton]
  cases call.isExact uri with
  | true => rw [cond_true, if_pos rfl, List.getLast?_concat, Option.bind_some]
  | false => rw [cond_false, if_neg Bool.false_ne_true, List.append_nil, liveServlet]

theorem update_eq_ite {α : Type} (f : Bytes → α) (uri path : Bytes) (v : α) :
    Function.update f uri v path = if decide (uri = path) then v else f path := by
  by_cases same : uri = path
  · rw [if_pos (decide_eq_true same), same, Function.update_self]
  · rw [if_neg (by simp [same]), Function.update_of_ne (Ne.symm same)]

/-! ## The loops -/

namespace ServletDispatch

theorem eraseAll_cons_of_ne {uri : Bytes} {entry : Bytes × S} (other : entry.1 ≠ uri)
    (rest : List (Bytes × S)) :
    eraseAll uri (entry :: rest) = (entry :: ·) <$> eraseAll uri rest := by
  cases rest with
  | nil => rw [eraseAll.eq_def]; simp only [if_neg other]; rfl
  | cons next rest => rw [eraseAll.eq_def]; simp only [if_neg other]; rfl

/-- Where the pattern does not occur, the loop passes over everything. -/
theorem eraseAll_of_not_mem {uri : Bytes} {entries : List (Bytes × S)}
    (absent : uri ∉ entries.map Prod.fst) : eraseAll uri entries = .ok entries := by
  induction entries with
  | nil => rfl
  | cons entry rest ih =>
      rw [List.map_cons, List.mem_cons, not_or] at absent
      rw [eraseAll_cons_of_ne (Ne.symm absent.1), ih absent.2]
      rfl

theorem filter_of_not_mem {uri : Bytes} {entries : List (Bytes × S)}
    (absent : uri ∉ entries.map Prod.fst) :
    entries.filter (fun entry => !decide (uri = entry.1)) = entries := by
  refine List.filter_eq_self.mpr fun entry member => ?_
  have apart : uri ≠ entry.1 := fun same => absent (same ▸ List.mem_map_of_mem member)
  rw [decide_eq_false apart]
  rfl

/-- The loop takes the one entry of the pattern out, unless it is the last. -/
theorem eraseAll_eq {uri : Bytes} {entries : List (Bytes × S)}
    (nodup : (entries.map Prod.fst).Nodup) :
    eraseAll uri entries =
      if entries.getLast?.map Prod.fst = some uri then .error .outOfBounds
      else .ok (entries.filter fun entry => !decide (uri = entry.1)) := by
  induction entries with
  | nil => rfl
  | cons entry rest ih =>
      rw [List.map_cons, List.nodup_cons] at nodup
      obtain ⟨fresh, nodup⟩ := nodup
      by_cases here : entry.1 = uri
      · subst here
        cases rest with
        | nil => simp only [eraseAll, List.getLast?_singleton, Option.map_some, if_true]
        | cons next rest =>
            have absent : entry.1 ∉ rest.map Prod.fst := fun member =>
              fresh (List.mem_cons_of_mem _ member)
            have last : (entry :: next :: rest).getLast?.map Prod.fst ≠ some entry.1 := by
              intro same
              obtain ⟨found, at_end, pattern⟩ := Option.map_eq_some_iff.mp same
              rw [List.getLast?_cons_cons] at at_end
              exact fresh (pattern ▸ List.mem_map_of_mem (List.mem_of_getLast? at_end))
            rw [if_neg last, List.filter_cons_of_neg (by simp), filter_of_not_mem fresh,
              eraseAll.eq_def]
            simp only [if_true, eraseAll_of_not_mem absent]
            rfl
      · rw [eraseAll_cons_of_ne here, ih nodup, List.filter_cons_of_pos (by simp [Ne.symm here])]
        cases rest with
        | nil =>
            have apart : some entry.1 ≠ some uri := fun same => here (Option.some.inj same)
            rw [List.getLast?_singleton, Option.map_some, if_neg apart]
            rfl
        | cons next rest =>
            rw [List.getLast?_cons_cons]
            split
            · rfl
            · rfl

/-- `delGlobalServlet` takes the one entry of the pattern out. -/
theorem eraseP_eq {uri : Bytes} {entries : List (Bytes × S)}
    (nodup : (entries.map Prod.fst).Nodup) :
    entries.eraseP (fun entry => decide (entry.1 = uri)) =
      entries.filter fun entry => !decide (uri = entry.1) := by
  induction entries with
  | nil => rfl
  | cons entry rest ih =>
      rw [List.map_cons, List.nodup_cons] at nodup
      obtain ⟨fresh, nodup⟩ := nodup
      by_cases here : entry.1 = uri
      · subst here
        rw [List.eraseP_cons_of_pos (by simp), List.filter_cons_of_neg (by simp),
          filter_of_not_mem fresh]
      · rw [List.eraseP_cons_of_neg (by simp [here]), ih nodup,
          List.filter_cons_of_pos (by simp [Ne.symm here])]

/-- The table holds what is registered. -/
structure Serves (d : ServletDispatch S) (default : S) (calls : List (ServletCall S)) : Prop where
  servlets : ∀ uri, d.servlets uri = liveServlet uri calls
  globals : d.globals = liveGlobals calls
  default_eq : d.default = default

variable {d : ServletDispatch S} {default : S} {calls : List (ServletCall S)}

theorem Serves.dispatched (serves : d.Serves default calls) (fnmatch : Bytes → Bytes → Bool)
    (uri : Bytes) : d.getMatchServlet fnmatch uri = dispatched fnmatch default calls uri := by
  rw [getMatchServlet, Http.dispatched, serves.servlets, serves.globals, serves.default_eq]
  cases liveServlet uri calls with
  | some servlet => rfl
  | none =>
      cases (liveGlobals calls).find? fun entry => fnmatch (cstr entry.1) (cstr uri) with
      | some entry => rfl
      | none => rfl

/-- The pattern that a call registers is that of the last entry. -/
def ReplacesLast (calls : List (ServletCall S)) : ServletCall S → Prop
  | .addGlobalServlet pattern _ => (liveGlobals calls).getLast?.map Prod.fst = some pattern
  | _ => False

/-- A call runs past the end of the vector exactly when it replaces the last entry, and
else the table holds what is registered with it. -/
theorem Serves.exec (serves : d.Serves default calls) (call : ServletCall S) :
    (ReplacesLast calls call → call.exec d = .error .outOfBounds) ∧
      (¬ReplacesLast calls call →
        ∃ d', call.exec d = .ok d' ∧ d'.Serves default (calls ++ [call])) := by
  have nodup := nodup_liveGlobals calls
  cases call with
  | addServlet uri servlet =>
      refine ⟨nofun, fun _ => ⟨_, rfl, fun path => ?_, ?_, serves.default_eq⟩⟩
      · rw [liveServlet_snoc, ← serves.servlets]
        exact update_eq_ite ..
      · rw [liveGlobals_snoc_exact (fun _ => rfl) rfl]
        exact serves.globals
  | delServlet uri =>
      refine ⟨nofun, fun _ => ⟨_, rfl, fun path => ?_, ?_, serves.default_eq⟩⟩
      · rw [liveServlet_snoc, ← serves.servlets]
        exact update_eq_ite ..
      · rw [liveGlobals_snoc_exact (fun _ => rfl) rfl]
        exact serves.globals
  | addGlobalServlet pattern servlet =>
      rw [ReplacesLast, ServletCall.exec, addGlobalServlet, serves.globals, eraseAll_eq nodup]
      refine ⟨fun last => by rw [if_pos last]; rfl, fun other => ?_⟩
      rw [if_neg other]
      refine ⟨_, rfl, fun path => ?_, ?_, serves.default_eq⟩
      · rw [liveServlet_snoc]
        exact serves.servlets path
      · rw [liveGlobals_snoc]
        rfl
  | delGlobalServlet pattern =>
      refine ⟨nofun, fun _ => ⟨_, rfl, fun path => ?_, ?_, serves.default_eq⟩⟩
      · rw [liveServlet_snoc]
        exact serves.servlets path
      · rw [delGlobalServlet, liveGlobals_snoc, serves.globals, eraseP_eq nodup]
        exact (List.append_nil _).symm

theorem serves_init (default : S) :
    ({ default := default } : ServletDispatch S).Serves default [] :=
  ⟨fun _ => rfl, rfl, rfl⟩

/-- A history without fault has replaced no last entry. -/
theorem serves_of_foldlM (ran : calls.foldlM ServletCall.exec { default := default } = .ok d) :
    (∀ before call, before ++ [call] <+: calls → ¬ReplacesLast before call) ∧
      d.Serves default calls := by
  induction calls using List.reverseRecOn generalizing d with
  | nil =>
      cases ran
      refine ⟨fun before call within => ?_, serves_init default⟩
      exact absurd (List.prefix_nil.mp within) (List.append_ne_nil_of_right_ne_nil _ nofun)
  | append_singleton calls last ih =>
      rw [List.foldlM_append] at ran
      cases first : calls.foldlM ServletCall.exec { default := default } with
      | error fault =>
          rw [first] at ran
          cases ran
      | ok d₁ =>
          rw [first] at ran
          have step : last.exec d₁ = .ok d := by
            change (last.exec d₁ >>= fun d => pure d) = .ok d at ran
            rwa [bind_pure] at ran
          obtain ⟨never, serves⟩ := ih first
          obtain ⟨faults, goes⟩ := serves.exec last
          have other : ¬ReplacesLast calls last := by
            intro replaces
            rw [faults replaces] at step
            cases step
          obtain ⟨d₂, done, serves₂⟩ := goes other
          rw [step] at done
          cases done
          refine ⟨fun before call within => ?_, serves₂⟩
          rcases List.prefix_concat_iff.mp within with whole | inside
          · obtain ⟨rfl, same⟩ := List.append_inj' whole rfl
            cases same
            exact other
          · exact never before call inside

theorem foldlM_of_never (default : S)
    (never : ∀ before call, before ++ [call] <+: calls → ¬ReplacesLast before call) :
    ∃ d, calls.foldlM ServletCall.exec { default := default } = .ok d ∧ d.Serves default calls := by
  induction calls using List.reverseRecOn with
  | nil => exact ⟨_, rfl, serves_init default⟩
  | append_singleton calls last ih =>
      obtain ⟨d₁, first, serves⟩ := ih fun before call inside =>
        never before call (inside.trans (List.prefix_append _ _))
      obtain ⟨d, done, serves'⟩ := (serves.exec last).2 (never calls last List.prefix_rfl)
      refine ⟨d, ?_, serves'⟩
      rw [List.foldlM_append, first]
      change (last.exec d₁ >>= fun d => pure d) = .ok d
      rw [bind_pure, done]

/-- **When the table serves what is registered.** After a history of calls that add and
delete servlets, whatever `fnmatch` matches: no loop has left the vector, no pattern has two
entries, and every path gets its latest live registration, else the servlet of the earliest
live pattern that matches it, else the default, exactly when no call has registered again the
pattern that was the last of the live ones. -/
theorem servlet_dispatch_iff (fnmatch : Bytes → Bytes → Bool) (default : S)
    (calls : List (ServletCall S)) :
    (∃ d : ServletDispatch S, calls.foldlM ServletCall.exec { default := default } = .ok d ∧
        (d.globals.map Prod.fst).Nodup ∧
        ∀ uri, d.getMatchServlet fnmatch uri = Http.dispatched fnmatch default calls uri) ↔
      ∀ before call, before ++ [call] <+: calls → ¬ReplacesLast before call := by
  constructor
  · rintro ⟨d, ran, -⟩
    exact (serves_of_foldlM ran).1
  · intro never
    obtain ⟨d, ran, serves⟩ := foldlM_of_never default never
    refine ⟨d, ran, ?_, serves.dispatched fnmatch⟩
    rw [serves.globals]
    exact nodup_liveGlobals calls

/-- `/a/*` is registered twice in a row. -/
theorem servlet_registered_twice :
    [ServletCall.addGlobalServlet (ascii "/a/*") 1, .addGlobalServlet (ascii "/a/*") 2].foldlM
        ServletCall.exec ({ default := 0 } : ServletDispatch Nat) = .error .outOfBounds :=
  rfl

end ServletDispatch

end Reyao.Http
