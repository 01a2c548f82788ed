import Mathlib.Data.List.Nodup
import ModelSchema.Proofs.Schema.Consistency
import ModelSchema.Proofs.Schema.Retries

/-!
# Requests in any order

A generator serves requests for the root type and for models of its run. What a request brings into
the registry depends on the run alone, not on what was served before, so it is enough to keep track
of which requests have been served: the registry then holds what they bring and, beyond what it had
at the start, nothing else. Main statement: two sequences of the same requests, in any order and
with any repetitions, end with the same types under the same names, and a request that is repeated
is answered with the type that is stored and changes nothing.
-/

namespace ModelSchema

open Procedure hiding pure

/-- Two registries have types under the same names, and under each name the same type. -/
def Registry.Agrees (r r' : Registry) : Prop :=
  (∀ name, (r.find? name).isSome = (r'.find? name).isSome) ∧
    ∀ name t t', r.find? name = some t → r'.find? name = some t' → t.same t' = true

namespace Generator

variable {start g g' : Generator} {m : Model} {t : TypeDescriptor} {ts : List TypeDescriptor}

/-- A call that is answered with a type. -/
inductive Request where
  | root
  | object (m : Model)

namespace Request

variable {q : Request} {served requests : List Request}

/-- Makes the call that a request stands for. -/
def serve : Request → Procedure Generator TypeDescriptor
  | root => generateRoot
  | object m => generateObject m

/-- Serves requests in order up to the first that fails. -/
def serveAll : List Request → Procedure Generator (List TypeDescriptor)
  | [] => pure []
  | q :: rest => do
    let t ← q.serve
    let ts ← serveAll rest
    pure (t :: ts)

/-- The types that a request brings into the registry of a generator. -/
def brings (g : Generator) : Request → List TypeDescriptor
  | root => [rootType g.models g.settings]
  | object m => g.typesOf m

/-- The name of the type that a request asks for. -/
def typeName (g : Generator) : Request → Value
  | root => g.settings.rootTypeName
  | object m => .text m.name

theorem serveAll_cons_ends_ok :
    (serveAll (q :: requests)).Ends g (.ok ts) g' ↔
      ∃ t mid rest, q.serve.Ends g (.ok t) mid ∧ (serveAll requests).Ends mid (.ok rest) g' ∧
        ts = t :: rest := by
  simp only [serveAll, ends_bind_ok, ends_pure, Except.ok.injEq]
  constructor
  · rintro ⟨t, mid, ht, rest, _, hrest, rfl, rfl⟩
    exact ⟨t, mid, rest, ht, hrest, rfl⟩
  · rintro ⟨t, mid, rest, ht, hrest, rfl⟩
    exact ⟨t, mid, ht, rest, g', hrest, rfl, rfl⟩

theorem serveAll_append_ends_ok {front back : List Request} :
    (serveAll (front ++ back)).Ends g (.ok ts) g' ↔
      ∃ before mid rest, (serveAll front).Ends g (.ok before) mid ∧
        (serveAll back).Ends mid (.ok rest) g' ∧ ts = before ++ rest := by
  induction front generalizing g ts with
  | nil =>
    simp only [List.nil_append, serveAll, ends_pure, Except.ok.injEq]
    constructor
    · intro h
      exact ⟨[], g, ts, ⟨rfl, rfl⟩, h, rfl⟩
    · rintro ⟨_, _, rest, ⟨rfl, rfl⟩, h, rfl⟩
      exact h
  | cons q front ih =>
    simp only [List.cons_append, serveAll_cons_ends_ok, ih]
    constructor
    · rintro ⟨t, next, _, ht, ⟨before, mid, rest, hfront, hback, rfl⟩, rfl⟩
      exact ⟨t :: before, mid, rest, ⟨t, next, before, ht, hfront, rfl⟩, hback, rfl⟩
    · rintro ⟨_, mid, rest, ⟨t, next, before, ht, hfront, rfl⟩, hback, rfl⟩
      exact ⟨t, next, before ++ rest, ht, ⟨before, mid, rest, hfront, hback, rfl⟩, rfl⟩

theorem length_of_serveAll (h : (serveAll requests).Ends g (.ok ts) g') :
    ts.length = requests.length := by
  induction requests generalizing g ts with
  | nil =>
    rw [← Except.ok.inj (ends_pure.mp h).1]
    rfl
  | cons q requests ih =>
    obtain ⟨t, mid, rest, -, hrest, rfl⟩ := serveAll_cons_ends_ok.mp h
    rw [List.length_cons, List.length_cons, ih hrest]

/-- The state of a generator that has served requests since a start. -/
structure Served (start : Generator) (served : List Request) (g : Generator) : Prop where
  models : g.models = start.models
  settings : g.settings = start.settings
  compiled : ∀ n, n ∈ g.compiled ↔ ∃ m, object m ∈ served ∧ m.name = n
  grows : start.registry.Grows g.registry
  holds : ∀ q ∈ served, ∀ t ∈ q.brings start, g.registry.Holds t
  only : ∀ row ∈ g.registry.types,
    row ∈ start.registry.types ∨ ∃ q ∈ served, ∃ t ∈ q.brings start, row = (t.name, t)

theorem Served.nil (h : start.compiled = []) : Served start [] start := by
  refine ⟨rfl, rfl, ?_, .refl _, by simp, fun row hrow => .inl hrow⟩
  simp [h]

theorem Served.draft_eq (h : Served start served g) (m : Model) : g.draft m = start.draft m :=
  draft_congr h.models h.settings m

theorem Served.addAll (h : Served start served g) (ha : g.registry.AcceptsAll (q.brings start))
    {compiled : List String}
    (hc : ∀ n, n ∈ compiled ↔ ∃ m, object m ∈ served ++ [q] ∧ m.name = n) :
    Served start (served ++ [q])
      { g with registry := g.registry.addAll (q.brings start), compiled } := by
  have hgrows := Registry.Grows.addAll ha
  refine ⟨h.models, h.settings, hc, h.grows.trans hgrows, ?_, ?_⟩
  · intro q' hq' t ht
    rcases List.mem_append.mp hq' with hq' | hq'
    · exact hgrows.holds (h.holds q' hq' t ht)
    · rw [List.mem_singleton.mp hq'] at ht
      exact Registry.find?_addAll_of_mem ha ht
  · intro row hrow
    rcases Registry.mem_types_addAll hrow with hrow | ⟨t, ht, rfl⟩
    · rcases h.only row hrow with hrow | ⟨q', hq', t, ht, rfl⟩
      · exact .inl hrow
      · exact .inr ⟨q', List.mem_append_left _ hq', t, ht, rfl⟩
    · exact .inr ⟨q, List.mem_concat_self, t, ht, rfl⟩

theorem Served.again (h : Served start served g) (hq : q ∈ served) :
    Served start (served ++ [q]) g := by
  have hmem : ∀ q', q' ∈ served ++ [q] ↔ q' ∈ served := by
    intro q'
    rw [List.mem_append, List.mem_singleton]
    exact ⟨fun hq' => hq'.elim id fun he => he ▸ hq, .inl⟩
  refine ⟨h.models, h.settings, ?_, h.grows, ?_, ?_⟩
  · simpa only [hmem] using h.compiled
  · simpa only [hmem] using h.holds
  · simpa only [hmem] using h.only

/-- Among models with different names a compiled name tells which model was served. -/
theorem Served.mem_of_compiled (h : Served start served g)
    (hnames : (start.models.map Model.name).Nodup)
    (hserved : ∀ m, object m ∈ served → m ∈ start.models) (hm : m ∈ start.models)
    (hc : m.name ∈ g.compiled) : object m ∈ served := by
  obtain ⟨m', hm', hname⟩ := (h.compiled m.name).mp hc
  have hsame : m' = m := List.inj_on_of_nodup_map hnames (hserved m' hm') hm hname
  rwa [hsame] at hm'

/-- A repeated request is answered with the type that is stored under the name that it asks for,
and changes nothing. -/
theorem Served.repeated (h : Served start served g) (hq : q ∈ served)
    (hends : q.serve.Ends g (.ok t) g') :
    g' = g ∧ g.registry.find? (q.typeName start) = some t := by
  cases q with
  | root =>
    obtain ⟨e, he, -⟩ := h.holds root hq _ List.mem_cons_self
    obtain ⟨-, ht, rfl⟩ := generateRoot_ends_ok.mp hends
    rw [← h.models, ← h.settings] at he
    rw [Registry.registration, he] at ht
    rw [Registry.add_of_found he, ← ht]
    refine ⟨rfl, ?_⟩
    rw [typeName, ← h.settings]
    exact he
  | object m =>
    have hc : m.name ∈ g.compiled := (h.compiled m.name).mpr ⟨m, hq, rfl⟩
    obtain ⟨hfetch, hg⟩ := (generateObject_ends_of_compiled hc).mp hends
    exact ⟨hg.symm, (Registry.fetch_ok_iff.mp hfetch).2⟩

theorem Served.step (h : Served start served g) (hnames : (start.models.map Model.name).Nodup)
    (hserved : ∀ m, object m ∈ served → m ∈ start.models)
    (hq : ∀ m, q = object m → m ∈ start.models) (hends : q.serve.Ends g (.ok t) g') :
    Served start (served ++ [q]) g' := by
  cases q with
  | root =>
    obtain ⟨ha, -, rfl⟩ := generateRoot_ends_ok.mp hends
    have hbrings : root.brings start = [rootType g.models g.settings] := by
      rw [brings, h.models, h.settings]
    have hall : g.registry.AcceptsAll (root.brings start) := by
      rw [hbrings]
      exact ⟨ha, trivial⟩
    have hserved : Served start (served ++ [root])
        { g with registry := g.registry.addAll (root.brings start) } :=
      h.addAll hall fun n => by simp [h.compiled n]
    rwa [hbrings] at hserved
  | object m =>
    by_cases hc : m.name ∈ g.compiled
    · have hmem := h.mem_of_compiled hnames hserved (hq m rfl) hc
      rw [(h.repeated hmem hends).1]
      exact h.again hmem
    · obtain ⟨fields, types, hd, ha, -, rfl⟩ := (generateObject_ends_ok_of_new hc).mp hends
      rw [h.draft_eq] at hd
      have hbrings : (object m).brings start = types ++ [m.objectType fields] := typesOf_eq hd
      rw [← hbrings] at ha
      rw [settle, ← hbrings]
      apply h.addAll ha
      intro n
      simp only [List.mem_append, List.mem_singleton, h.compiled n, object.injEq, or_and_right,
        exists_or]
      simp [eq_comm]

theorem Served.run (h : Served start served g) (hnames : (start.models.map Model.name).Nodup)
    (hserved : ∀ m, object m ∈ served ++ requests → m ∈ start.models)
    (hends : (serveAll requests).Ends g (.ok ts) g') : Served start (served ++ requests) g' := by
  induction requests generalizing served g ts with
  | nil =>
    rw [List.append_nil, ← (ends_pure.mp hends).2]
    exact h
  | cons q requests ih =>
    obtain ⟨t, mid, rest, hq, hrest, -⟩ := serveAll_cons_ends_ok.mp hends
    rw [List.append_cons] at hserved ⊢
    apply ih (h.step hnames ?_ ?_ hq) hserved hrest
    · intro m hm
      exact hserved m (by simp [hm])
    · rintro m rfl
      exact hserved m (by simp)

variable {served' : List Request}

/-- What one run has under a name another has too if it has served the same requests. -/
theorem Served.find? (h : Served start served g) (h' : Served start served' g')
    (hset : ∀ q ∈ served, q ∈ served') {name : Value} (ht : g.registry.find? name = some t) :
    ∃ t', g'.registry.find? name = some t' ∧ t.same t' = true := by
  obtain ⟨row, hrow, hkey, rfl⟩ := Table.mem_of_find? ht
  cases hs : start.registry.find? name with
  | some e =>
    have hkept : g.registry.find? name = some e := Table.find?_of_prefix h.grows.keeps hs
    have hkept' : g'.registry.find? name = some e := Table.find?_of_prefix h'.grows.keeps hs
    cases hkept.symm.trans ht
    exact ⟨row.2, hkept', row.2.same_refl⟩
  | none =>
    -- The start has nothing under the name, so the type comes from a request.
    rcases h.only row hrow with hrow | ⟨q, hq, u, hu, rfl⟩
    · have hfree := Table.find?_eq_none_iff.mp hs row hrow
      rw [hkey] at hfree
      cases hfree
    · obtain ⟨t', ht', hsame⟩ := h'.holds q (hset q hq) u hu
      refine ⟨t', ?_, TypeDescriptor.same_symm hsame⟩
      rw [← ht']
      exact (Table.find?_congr hkey g'.registry.types).symm

theorem Served.agrees (h : Served start served g) (h' : Served start served' g')
    (hset : ∀ q, q ∈ served ↔ q ∈ served') : g.registry.Agrees g'.registry := by
  constructor
  · intro name
    rw [Bool.eq_iff_iff, Option.isSome_iff_exists, Option.isSome_iff_exists]
    constructor
    · rintro ⟨t, ht⟩
      obtain ⟨t', ht', -⟩ := h.find? h' (fun q => (hset q).mp) ht
      exact ⟨t', ht'⟩
    · rintro ⟨t, ht⟩
      obtain ⟨t', ht', -⟩ := h'.find? h (fun q => (hset q).mpr) ht
      exact ⟨t', ht'⟩
  · intro name t t' ht ht'
    obtain ⟨u, hu, hsame⟩ := h.find? h' (fun q => (hset q).mp) ht
    cases hu.symm.trans ht'
    exact hsame

/-- Two runs that serve the same requests, in any order and with any repetitions, end with
registries that agree. A request that is repeated is answered with the type that is stored under
the name that it asks for, and leaves the generator as it was. -/
theorem serveAll_interleaved {models : List Model} {settings : Settings} {lookup : RelationLookup}
    {registry : Registry} {requests' : List Request} {ts' : List TypeDescriptor}
    (hnames : (models.map Model.name).Nodup) (hmodels : ∀ m, object m ∈ requests → m ∈ models)
    (hset : ∀ q, q ∈ requests ↔ q ∈ requests')
    (h : (serveAll requests).Ends { models, settings, lookup, registry } (.ok ts) g)
    (h' : (serveAll requests').Ends { models, settings, lookup, registry } (.ok ts') g') :
    g.registry.Agrees g'.registry ∧
      ∀ front q back, requests = front ++ q :: back → q ∈ front →
        ∃ before t rest mid, ts = before ++ t :: rest ∧ before.length = front.length ∧
          (serveAll front).Ends { models, settings, lookup, registry } (.ok before) mid ∧
          mid.registry.find? (q.typeName { models, settings, lookup, registry }) = some t ∧
          q.serve.Ends mid (.ok t) mid := by
  generalize hstart : ({ models, settings, lookup, registry } : Generator) = start at h h' ⊢
  have hfresh : Served start [] start := .nil (by rw [← hstart])
  have hnames : (start.models.map Model.name).Nodup := by rwa [← hstart]
  have hmodels : ∀ m, object m ∈ requests → m ∈ start.models := by rwa [← hstart]
  constructor
  · have hserved : Served start requests g := hfresh.run hnames hmodels h
    have hserved' : Served start requests' g' :=
      hfresh.run hnames (fun m hm => hmodels m ((hset _).mpr hm)) h'
    exact hserved.agrees hserved' hset
  · rintro front q back rfl hq
    obtain ⟨before, mid, _, hfront, hback, rfl⟩ := serveAll_append_ends_ok.mp h
    obtain ⟨t, next, rest, ht, -, rfl⟩ := serveAll_cons_ends_ok.mp hback
    have hserved : Served start front mid :=
      hfresh.run hnames (fun m hm => hmodels m (List.mem_append_left _ hm)) hfront
    obtain ⟨rfl, hstored⟩ := hserved.repeated hq ht
    exact ⟨before, t, rest, next, rfl, length_of_serveAll hfront, hfront, hstored, ht⟩

theorem exists_answers (g : Generator) (requests : List Request)
    (h : ((serveAll requests).run g).2.outcome.isOk = true) :
    ∃ ts g', (serveAll requests).Ends g (.ok ts) g' := by
  obtain ⟨ts, hts⟩ := exists_of_isOk h
  exact ⟨ts, _, rfl, hts⟩

/-- The two models and the root type in one order, and in another with one of them repeated. -/
theorem serveAll_interleaved_bookkeeping :
    let start : Generator := .ofModels [accountModel, ledgerModel]
    let front := [object ledgerModel, root, object accountModel]
    ∃ before t g ts' g' mid,
      (serveAll (front ++ [object ledgerModel])).Ends start (.ok (before ++ [t])) g ∧
        (serveAll [root, object accountModel, object ledgerModel]).Ends start (.ok ts') g' ∧
        g.registry.Agrees g'.registry ∧ (serveAll front).Ends start (.ok before) mid ∧
        mid.registry.find? (.text "Ledger") = some t := by
  intro start front
  obtain ⟨ts, g, h⟩ := exists_answers start (front ++ [object ledgerModel]) (by decide +kernel)
  obtain ⟨ts', g', h'⟩ := exists_answers start [root, object accountModel, object ledgerModel]
    (by decide +kernel)
  have hmodels : ∀ m, object m ∈ front ++ [object ledgerModel] →
      m ∈ [accountModel, ledgerModel] := by
    simp only [front, List.cons_append, List.nil_append, List.mem_cons, List.not_mem_nil,
      object.injEq, reduceCtorEq, or_false, false_or]
    tauto
  have hset : ∀ q, q ∈ front ++ [object ledgerModel] ↔
      q ∈ [root, object accountModel, object ledgerModel] := by
    simp only [front, List.cons_append, List.nil_append, List.mem_cons, List.not_mem_nil, or_false]
    tauto
  obtain ⟨hagrees, hrepeated⟩ := serveAll_interleaved (by decide) hmodels hset h h'
  obtain ⟨before, t, rest, mid, rfl, hlength, hfront, hstored, -⟩ :=
    hrepeated front (object ledgerModel) [] rfl (by simp [front])
  have hanswers := length_of_serveAll h
  have hrest : rest = [] := by
    apply List.eq_nil_of_length_eq_zero
    simp only [List.length_append, List.length_cons, List.length_nil, hlength] at hanswers
    omega
  subst hrest
  exact ⟨before, t, g, ts', g', mid, h, h', hagrees, hfront, hstored⟩

end Request

end Generator

end ModelSchema
