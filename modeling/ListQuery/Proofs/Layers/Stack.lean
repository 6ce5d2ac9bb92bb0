import ListQuery.Builder.Cached
import ListQuery.Builder.Metered
import ListQuery.Builder.Notifying
import ListQuery.Webhook.Courier
import ListQuery.Proofs.Cache.ReadThrough
import ListQuery.Proofs.Layers.Within
import ListQuery.Proofs.Matching
import ListQuery.Proofs.Meter
import ListQuery.Proofs.Request.Written

/-!
# Stacks of layers

A builder under a stack of layers, none of which keeps responses, gives the answers of the builder
at the bottom to the request within the scopes of all layers.  Each layer passes on what it does not
change, and neither measuring nor telling of an answer can fail on a resolved request.

* `Wrapper`, `Builder.wrapped`   a layer, and a builder under a stack of them;
* `Builder.AnswersAs`            a builder answers a request as another one answers another request;
* `Wrapper.around_answers`       one layer;
* `Builder.wrapped_answers`      a stack of layers;
* `Builder.wrapped_reordered`    stacks of the same layers over collections;
* `Builder.layers_compose`       both.
-/

namespace ListQuery

/-! ## layers -/

structure Recorder (S : Type) where
  meter : S → Meter
  keep : Meter → S → S
  numeric : ∀ s, (meter s).threshold.number?.isSome = true

structure Notice (S : Type) where
  courier : S → Courier
  keep : Courier → S → S
  url : String
  headers : List (String × Value)
  ownClient : Bool

/-- what can be put around a builder, but for the layers that keep responses -/
inductive Wrapper (S : Type) where
  /-- passes everything on -/
  | plain
  | tenant (id : String) (given : id ≠ "") (field : String)
  | softDelete (rows : Trash) (field : String)
  /-- could keep responses, but has no keys for them -/
  | keyless (store : ResponseStore S) (ttl : Value)
  | metered (clock : S → Binary64) (now : Instant) (recorder : Recorder S)
  | notifying (now : Instant) (notice : Notice S) (withRequest : Bool)

variable {S : Type}

def Recorder.record (a : Recorder S) (now : Instant) (r : Request) (elapsed count : Value) :
    Action S QueryMetrics :=
  Action.within a.meter a.keep (Meter.record now r elapsed count)

def Notice.schedule (n : Notice S) (payload : Payload) : Action S Unit :=
  Action.within n.courier n.keep (Courier.schedule
    { url := n.url, payload, headers := n.headers, ownClient := n.ownClient })

namespace Wrapper

def around : Wrapper S → Builder S → Outcome (Builder S)
  | .plain, b => .ok b
  | .tenant id _ field, b => b.tenant (.str id) field
  | .softDelete rows field, b => .ok (b.softDelete rows field)
  | .keyless store ttl, b => .ok (b.cached store ttl none)
  | .metered clock now recorder, b => .ok (b.metered clock (recorder.record now))
  | .notifying now notice withRequest, b => .ok (b.notifying now notice.schedule withRequest)

/-- the filter that a layer puts on every request -/
def scope : Wrapper S → List (String × Value)
  | .tenant id _ field => Scope.tenant (.str id) field
  | .softDelete rows field => Scope.softDelete rows field
  | _ => []

end Wrapper

namespace Builder

def wrapped (b : Builder S) : List (Wrapper S) → Outcome (Builder S)
  | [] => .ok b
  | layer :: rest => do layer.around (← b.wrapped rest)

/-- the rows and the counts of an answer, whatever was measured -/
def told (answer : Outcome PagedResponse) : Outcome (List Value × PageMeta) :=
  answer.map fun p => (p.data, p.counts)

/-- the builder answers a request as another builder answers another request.  On queries it may do
more, on the other questions it does just the same. -/
structure AnswersAs (outer : Builder S) (r : Request) (inner : Builder S) (held : Request) : Prop where
  query (maxLimit : Value) (w : Logged S) :
    told ((outer.query r maxLimit).runOn w).1 = told ((inner.query held maxLimit).runOn w).1
  cursorQuery (w : Logged S) : (outer.cursorQuery r).runOn w = (inner.cursorQuery held).runOn w
  count (w : Logged S) : (outer.count r).runOn w = (inner.count held).runOn w
  aggregate (aggregations : Value) (w : Logged S) :
    (outer.aggregate r aggregations).runOn w = (inner.aggregate held aggregations).runOn w

namespace AnswersAs

variable {outer middle inner : Builder S} {q r held : Request}

theorem refl (b : Builder S) (r : Request) : b.AnswersAs r b r :=
  ⟨fun _ _ => rfl, fun _ => rfl, fun _ => rfl, fun _ _ => rfl⟩

theorem trans (h : outer.AnswersAs q middle r) (h' : middle.AnswersAs r inner held) :
    outer.AnswersAs q inner held where
  query maxLimit w := (h.query maxLimit w).trans (h'.query maxLimit w)
  cursorQuery w := (h.cursorQuery w).trans (h'.cursorQuery w)
  count w := (h.count w).trans (h'.count w)
  aggregate aggregations w := (h.aggregate aggregations w).trans (h'.aggregate aggregations w)

end AnswersAs

end Builder

/-! ## measuring and telling -/

theorem Recorder.record_ok (a : Recorder S) (now : Instant) {r : Request} (hr : r.Resolved)
    (elapsed : Binary64) (count : Int) (w : Logged S) :
    ∃ metrics after, (a.record now r (.float elapsed) (.int count)).runOn w = (.ok metrics, after) := by
  obtain ⟨limit, hlimit⟩ := Option.isSome_iff_exists.mp (a.numeric w.state)
  have h := Meter.record_eq now hr elapsed count (w := ⟨a.meter w.state, w.log⟩) hlimit
  unfold record
  rw [Action.runOn_within, h]
  exact ⟨_, _, rfl⟩

namespace Builder

variable {b : Builder S} {r held : Request}

theorem told_andThen {next : PagedResponse → Action S PagedResponse}
    (hnext : ∀ response w, ∃ answer after, (next response).runOn w = (.ok answer, after) ∧
      answer.data = response.data ∧ answer.counts = response.counts)
    (maxLimit : Value) (w : Logged S) :
    told (((b.prepare r maxLimit >>= Prepared.andThen next) >>= Prepared.complete).runOn w).1
      = told ((b.query r maxLimit).runOn w).1 := by
  rw [prepare_andThen, Action.runOn_bind]
  rcases (b.query r maxLimit).runOn w with ⟨e | response, after⟩
  · rfl
  · obtain ⟨answer, later, hrun, hdata, hcounts⟩ := hnext response after
    show told ((next response).runOn after).1 = _
    rw [hrun]
    show Except.ok (answer.data, answer.counts) = Except.ok (response.data, response.counts)
    rw [hdata, hcounts]

theorem metered_answers (clock : S → Binary64) (now : Instant) (recorder : Recorder S)
    (hr : r.Resolved) : (b.metered clock (recorder.record now)).AnswersAs r b r where
  query maxLimit w := by
    have hquery : (b.metered clock (recorder.record now)).query r maxLimit
        = (Action.read >>= fun s => (b.prepare r maxLimit >>= Prepared.andThen fun response => do
            let stop := clock (← Action.read)
            let metrics ← recorder.record now r (.float (elapsed (clock s) stop))
              (.int response.counts.total)
            return { response with metrics := some metrics }) >>= Prepared.complete) := bind_assoc ..
    rw [hquery, Action.runOn_bind, Action.runOn_read]
    apply told_andThen
    intro response w
    obtain ⟨metrics, after, hrecord⟩ := recorder.record_ok now hr
      (elapsed (clock _) (clock w.state)) response.counts.total w
    rw [Action.runOn_bind, Action.runOn_read]
    dsimp only
    rw [Action.runOn_bind, hrecord]
    exact ⟨_, _, rfl, rfl, rfl⟩
  cursorQuery _ := rfl
  count _ := rfl
  aggregate _ _ := rfl

theorem notifying_answers (now : Instant) (notice : Notice S) (withRequest : Bool)
    (hr : r.Resolved) : (b.notifying now notice.schedule withRequest).AnswersAs r b r where
  query maxLimit w := by
    apply told_andThen
    intro response w
    obtain ⟨written, hwritten⟩ := Request.toRecord_ok hr
    rw [hwritten]
    cases withRequest <;> exact ⟨_, _, rfl, rfl, rfl⟩
  cursorQuery _ := rfl
  count _ := rfl
  aggregate _ _ := rfl

theorem inScope_answers {filter : List (String × Value)} (h : within filter r = .ok held) :
    (b.inScope filter).AnswersAs r b held := by
  have hpure {α : Type} (f : Request → Action S α) :
      ((liftM (within filter r) : Action S Request) >>= f) = f held := by
    rw [h]
    exact pure_bind held f
  constructor
  · intro maxLimit w
    have hquery : (b.inScope filter).query r maxLimit
        = ((liftM (within filter r) : Action S Request) >>= fun held => b.query held maxLimit) :=
      bind_assoc ..
    rw [hquery, hpure]
  · exact fun w => congrArg (·.runOn w) (hpure b.cursorQuery)
  · exact fun w => congrArg (·.runOn w) (hpure b.count)
  · exact fun aggregations w => congrArg (·.runOn w) (hpure fun held => b.aggregate held aggregations)

end Builder

/-! ## scopes -/

namespace Wrapper

/-- scopes compare with a text or ask for a null, which is no fault on any row -/
theorem scope_decisive (layer : Wrapper S) : ∀ e ∈ layer.scope, Condition.Decisive e := by
  have hdecisive (field : String) (v : Value) (op : Operator) (wanted : Value)
      (test : Value → Value → Bool) (hv : v ≠ .unset)
      (hresolved : (Condition.ofValue v).resolved = true)
      (htree : (Condition.ofValue v).tree field = .compare field op wanted)
      (htest : op.check? = some fun a b => .ok (test a b)) : Condition.Decisive (field, v) := by
    refine ⟨hv, hresolved, fun row => ?_⟩
    rw [htree, Predicate.evaluate]
    exact Predicate.compareWith_ok htest wanted (row.resolve field)
  intro e he
  cases layer with
  | tenant id given field =>
    rw [List.mem_singleton.mp he]
    exact hdecisive field (.str id) .eq (.str id) Value.equals (by simp) rfl rfl rfl
  | softDelete rows field =>
    cases rows with
    | live =>
      rw [List.mem_singleton.mp he]
      exact hdecisive field .null .isNull .null (fun a _ => a.isNull) (by simp) rfl rfl rfl
    | trashed =>
      rw [List.mem_singleton.mp he]
      exact hdecisive field (.record [("not", .null)]) .isNotNull .null (fun a _ => !a.isNull) (by simp)
        rfl rfl rfl
    | both => cases he
  | _ => cases he

/-- a builder under a layer answers as the builder itself does within the scope of the layer -/
theorem around_answers (layer : Wrapper S) (b : Builder S) :
    ∃ outer, layer.around b = .ok outer ∧
      ∀ r : Request, r.Resolved → outer.AnswersAs r b (r.holding layer.scope) := by
  have hwithin (r : Request) (hr : r.Resolved) := r.within_eq hr layer.scope_decisive
  cases layer with
  | plain => exact ⟨b, rfl, fun r _ => r.holding_nil.symm ▸ .refl b r⟩
  | tenant id given field =>
    refine ⟨_, if_pos (by simpa [Value.truthy] using given), fun r hr => ?_⟩
    exact Builder.inScope_answers (hwithin r hr)
  | softDelete rows field => exact ⟨_, rfl, fun r hr => Builder.inScope_answers (hwithin r hr)⟩
  | keyless store ttl => exact ⟨_, rfl, fun r _ => r.holding_nil.symm ▸ .refl b r⟩
  | metered clock now recorder =>
    exact ⟨_, rfl, fun r hr => r.holding_nil.symm ▸ Builder.metered_answers clock now recorder hr⟩
  | notifying now notice withRequest =>
    exact ⟨_, rfl, fun r hr => r.holding_nil.symm ▸ Builder.notifying_answers now notice withRequest hr⟩

theorem scopes_decisive (layers : List (Wrapper S)) :
    ∀ e ∈ layers.flatMap scope, Condition.Decisive e := by
  intro e he
  obtain ⟨layer, _, he⟩ := List.mem_flatMap.mp he
  exact layer.scope_decisive e he

end Wrapper

namespace Builder

/-! ## stacks -/

/-- a builder under layers answers as the builder itself does within all their scopes -/
theorem wrapped_answers (b : Builder S) (layers : List (Wrapper S)) :
    ∃ outer, b.wrapped layers = .ok outer ∧ ∀ r : Request, r.Resolved →
      outer.AnswersAs r b (r.holding (layers.flatMap Wrapper.scope)) := by
  induction layers with
  | nil => exact ⟨b, rfl, fun r _ => r.holding_nil.symm ▸ .refl b r⟩
  | cons layer rest ih =>
    obtain ⟨inner, hinner, hrest⟩ := ih
    obtain ⟨outer, houter, hlayer⟩ := layer.around_answers inner
    refine ⟨outer, by rw [wrapped, hinner]; exact houter, fun r hr => ?_⟩
    have hheld := Request.holding_resolved hr layer.scope_decisive
    have hjoined : (r.holding layer.scope).holding (rest.flatMap Wrapper.scope)
        = r.holding ((layer :: rest).flatMap Wrapper.scope) :=
      Request.holding_append (fun e he => (layer.scope_decisive e he).given)
        fun e he => (Wrapper.scopes_decisive rest e he).given
    exact (hlayer r hr).trans (hjoined ▸ hrest _ hheld)

/-- over collections, the order of layers with different fields does not matter for the answers -/
theorem wrapped_reordered (store : S → Store) (config : Config) {layers others : List (Wrapper S)}
    (hperm : layers.Perm others)
    (hnames : ((layers.flatMap Wrapper.scope).map Prod.fst).Nodup) :
    ∃ one other, (base config (.ofStore store)).wrapped layers = .ok one ∧
      (base config (.ofStore store)).wrapped others = .ok other ∧
      ∀ r : Request, r.Resolved → ∀ w,
        (∀ maxLimit, told ((one.query r maxLimit).runOn w).1
          = told ((other.query r maxLimit).runOn w).1) ∧
        ((one.cursorQuery r).runOn w).1 = ((other.cursorQuery r).runOn w).1 ∧
        ((one.count r).runOn w).1 = ((other.count r).runOn w).1 ∧
        ∀ aggregations, ((one.aggregate r aggregations).runOn w).1
          = ((other.aggregate r aggregations).runOn w).1 := by
  obtain ⟨one, hone, hanswers⟩ := wrapped_answers (base config (.ofStore store)) layers
  obtain ⟨other, hother, hanswers'⟩ := wrapped_answers (base config (.ofStore store)) others
  refine ⟨one, other, hone, hother, fun r hr w => ?_⟩
  have hscopes := Wrapper.scopes_decisive layers
  have hheld := Request.holding_resolved hr hscopes
  have hheld' := Request.holding_resolved hr (Wrapper.scopes_decisive others)
  have hrows := Request.holding_evaluate (r := r) (hperm.flatMap_right _) hnames hscopes
  have h := hanswers r hr
  have h' := hanswers' r hr
  obtain ⟨hpage, hwindow, hcount, haggregate⟩ :=
    base_matching store config w (Request.predicate_eq_tree hheld) (Request.predicate_eq_tree hheld')
      (.filters _ _ _ _) (Store.matching_congr hrows _)
  refine ⟨fun maxLimit => ?_, ?_, ?_, fun aggregations => ?_⟩
  · rw [h.query, h'.query, hpage]
  · rw [h.cursorQuery, h'.cursorQuery, hwindow]
  · rw [h.count, h'.count, hcount]
  · rw [h.aggregate, h'.aggregate, haggregate]

/-- Layers compose.  A builder under any stack of layers answers a resolved request with the rows and
counts, or the failure, that the builder itself gives to the request within the scopes of all layers,
those further inside written over those further outside; on the questions other than queries it does
just what the builder does.  Over collections, layers with scopes of different fields give the same
answers in any order. -/
theorem layers_compose (b : Builder S) (layers : List (Wrapper S)) :
    (∃ outer, b.wrapped layers = .ok outer ∧ ∀ r : Request, r.Resolved →
      ∃ held, within (layers.flatMap Wrapper.scope) r = .ok held ∧ outer.AnswersAs r b held) ∧
    ∀ (store : S → Store) (config : Config) (others : List (Wrapper S)), layers.Perm others →
      ((layers.flatMap Wrapper.scope).map Prod.fst).Nodup →
      ∃ one other, (base config (.ofStore store)).wrapped layers = .ok one ∧
        (base config (.ofStore store)).wrapped others = .ok other ∧
        ∀ r : Request, r.Resolved → ∀ w,
          (∀ maxLimit, told ((one.query r maxLimit).runOn w).1
            = told ((other.query r maxLimit).runOn w).1) ∧
          ((one.cursorQuery r).runOn w).1 = ((other.cursorQuery r).runOn w).1 ∧
          ((one.count r).runOn w).1 = ((other.count r).runOn w).1 ∧
          ∀ aggregations, ((one.aggregate r aggregations).runOn w).1
            = ((other.aggregate r aggregations).runOn w).1 := by
  refine ⟨?_, fun store config others hperm hnames => wrapped_reordered store config hperm hnames⟩
  obtain ⟨outer, houter, hanswers⟩ := b.wrapped_answers layers
  refine ⟨outer, houter, fun r hr => ⟨_, ?_, hanswers r hr⟩⟩
  exact Request.within_eq hr (Wrapper.scopes_decisive layers)

/-- live rows of a tenant under a measuring layer, with the layers in two orders -/
theorem layers_compose_live :
    let rows : List Value := [.record [("owner", .str "a"), ("gone", .null), ("n", .int 1)],
      .record [("owner", .str "b"), ("gone", .null), ("n", .int 2)],
      .record [("owner", .str "a"), ("gone", .int 7), ("n", .int 3)]]
    let r : Request := { model := some "m", filters := [("owner", .exact (.str "b"))] }
    let w : Logged Store := ⟨⟨[(.str "m", rows)]⟩, []⟩
    let recorder : Recorder Store := ⟨fun _ => { threshold := .int 5 }, fun _ s => s, fun _ => rfl⟩
    let tenant : Wrapper Store := .tenant "a" (by decide) "owner"
    let live : Wrapper Store := .softDelete .live "gone"
    let measured : Wrapper Store := .metered (fun _ => .zero) default recorder
    let layers := [live, measured, tenant]
    r.Resolved ∧ layers.Perm [tenant, live, measured] ∧
      ((layers.flatMap Wrapper.scope).map Prod.fst).Nodup ∧
      ∃ held one other, within [("gone", .null), ("owner", .str "a")] r = .ok held ∧
        held.filters = [("owner", .exact (.str "a")), ("gone", .exact .null)] ∧
        (base {} (.ofStore id)).wrapped layers = .ok one ∧
        (base {} (.ofStore id)).wrapped [tenant, live, measured] = .ok other ∧
        ((one.count r).runOn w).1 = .ok 1 ∧ ((other.count r).runOn w).1 = .ok 1 ∧
        told ((one.query r .null).runOn w).1
          = .ok ([.record [("owner", .str "a"), ("gone", .null), ("n", .int 1)]], ⟨1, 1, 10, 1⟩) := by
  intro rows r w recorder tenant live measured layers
  have hr : r.Resolved := by
    constructor
    · intro e he
      rw [List.mem_singleton.mp he]
      rfl
    all_goals exact fun _ h => absurd h List.not_mem_nil
  have hperm : layers.Perm [tenant, live, measured] :=
    (List.perm_append_singleton tenant [live, measured] : ([live, measured] ++ [tenant]).Perm _)
  have hnames : ((layers.flatMap Wrapper.scope).map Prod.fst).Nodup := by decide
  obtain ⟨⟨outer, houter, hanswers⟩, hreordered⟩ := layers_compose (base {} (.ofStore id)) layers
  obtain ⟨held, hheld, hone⟩ := hanswers r hr
  obtain ⟨one, other, hlayers, hothers, hsame⟩ := hreordered id {} _ hperm hnames
  cases houter.symm.trans hlayers
  have hfilters : within (layers.flatMap Wrapper.scope) r
      = .ok { r with filters := [("owner", .exact (.str "a")), ("gone", .exact .null)] } := rfl
  cases hheld.symm.trans hfilters
  have hcount : ((outer.count r).runOn w).1 = .ok 1 := congrArg Prod.fst (hone.count w)
  refine ⟨hr, hperm, hnames, _, outer, other, hfilters, rfl, hlayers, hothers, hcount, ?_, ?_⟩
  · exact (hsame r hr w).2.2.1.symm.trans hcount
  · exact (hone.query .null w).trans rfl

end Builder

end ListQuery
