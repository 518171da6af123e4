import SetterLoom.Proofs.Weave.Paired
import SetterLoom.Proofs.Weave.Setter

/-!
# What a woven setter does

Where nothing but notifications is woven, a woven setter does what the setter did before and announces the
promised targets behind each store that control falls through from, as long as the object has no handlers
then. The objects that the woven code makes in between change the numbers of those that follow, and
nothing else.

* `runs_prologue`: the values before the change.
* `setter_preserved`: the setter before and after weaving.
-/

namespace SetterLoom
set_option autoImplicit false

namespace Site

/-- The frame in which the body of a setter starts. -/
def setFrame (c : Site) (body : Body) (r : HeapRef) (v : Value) : Frame :=
  { arguments := [.ref r, v], slots := c.startSlots body }

@[simp] theorem length_startSlots (c : Site) (body : Body) :
    (c.startSlots body).length = body.slots.length := by
  unfold startSlots
  rw [List.length_map, List.length_zipIdx]

theorem startSlots_append (c : Site) {body result : Body} {new : List TypeId}
    (hslots : result.slots = body.slots ++ new) :
    ∃ rest, c.startSlots result = c.startSlots body ++ rest := by
  unfold startSlots
  rw [hslots, List.zipIdx_append, List.map_append]
  exact ⟨_, rfl⟩

end Site

namespace Layout

theorem runs_prologue {ctx : BlockContext} {called : List String} {anchors : List Nat}
    {before : String → Bool → UInt16} {l : Layout ctx none called anchors before} {code : Stream}
    {first count : Nat} (hstores : l.StoresInto code first count)
    (hhooks : ctx.options.changeHooks = false) {c : Site} (bound : Nat) {f : Frame} {s : Machine}
    {r : HeapRef} {type : Token} {fields : TokenMap Value} {fieldOf : String → Field}
    (hready : ctx.Ready c.module s.hooks type fieldOf)
    (hr : s.heap.get? r = some (.object type fields)) (hthis : f.arguments[0]? = some (.ref r))
    (hslots : f.slots.length = first + count) (hdepth : s.depth < maxDepth)
    (hroom : 16 * ctx.promised.length ≤ s.limit - s.executed) :
    ∃ g T stored, ∃ held : String → Value,
      c.Runs (Action.invokeAt c.module (bound + 1)) (l.prologue.map (·.op)) f s g T
      ∧ f.Beside stored g ∧ (∀ i ∈ stored, first ≤ i.toNat)
      ∧ s.Extends c.module T [] ∧ T.executed ≤ s.executed + 16 * ctx.promised.length
      ∧ ∀ t ∈ ctx.promised, ∀ boxed, ctx.type.invoker.valueForm? = some boxed →
        first ≤ (before t.name boxed).toNat
          ∧ g.slots[(before t.name boxed).toNat]? = some (held t.name)
          ∧ ∃ u : Property, T.heap.Shows c.module u.type boxed
            (c.fieldValue fields (fieldOf t.name)) (held t.name) := by
  have hreadings := BlockContext.targetsReadings_eq hhooks called
  have hpromised : ∀ q ∈ ctx.targetsReadings called ctx.property.targets,
      q.1 ∈ ctx.promised ∧ ctx.type.invoker.valueForm? = some q.2 := by
    intro q hq
    rw [hreadings] at hq
    obtain ⟨t, ht, hform⟩ := List.mem_flatMap.mp hq
    obtain ⟨boxed, hboxed, rfl⟩ := List.mem_map.mp hform
    exact ⟨ht, Option.mem_toList.mp hboxed⟩
  have hlength : (firstReadings (ctx.targetsReadings called ctx.property.targets)).length
      ≤ ctx.promised.length := by
    refine Nat.le_trans (length_firstReadings_le _) ?_
    rw [hreadings]
    cases ctx.type.invoker.valueForm? with
    | none => simp
    | some boxed => simp
  obtain ⟨g, T, hruns, hbeside, hextends, hcost, hheld⟩ := BlockContext.runs_entry bound
    fieldOf before (c := c) (firstReadings (ctx.targetsReadings called ctx.property.targets))
    hready.types
    (fun q hq => by
      obtain ⟨ht, hform⟩ := hpromised q (mem_of_mem_firstReadings hq)
      exact hready.reads (by rw [hform]; rfl) q.1 (List.mem_filter.mp ht).1) hr hthis hdepth
    (fun q hq => hslots ▸ (entry_inside hstores (mem_of_mem_firstReadings hq)).2)
    (nodup_entry hstores) (by omega)
  refine ⟨g, T, _, fun name =>
    (g.slots[(before name (ctx.type.invoker.valueForm?.getD false)).toNat]?).getD .null, ?_,
    hbeside, fun i hi => ?_, hextends, by omega, fun t ht boxed hform => ?_⟩
  · rw [l.prologue_ops]
    exact hruns
  · obtain ⟨q, hq, rfl⟩ := List.mem_map.mp hi
    exact (entry_inside hstores (mem_of_mem_firstReadings hq)).1
  · have hwanted : (t, boxed) ∈ ctx.targetsReadings called ctx.property.targets := by
      rw [hreadings]
      refine List.mem_flatMap.mpr ⟨t, ht, List.mem_map.mpr ⟨boxed, ?_, rfl⟩⟩
      rw [hform]
      exact List.mem_singleton_self boxed
    -- the value may have been read from another target of that name
    obtain ⟨u, hu, hkey⟩ := List.mem_map.mp (mem_keys_firstReadings hwanted)
    obtain ⟨hname, hboxed⟩ := Prod.mk.inj hkey
    obtain ⟨v, hslot, hshows⟩ := hheld u hu
    rw [hname, hboxed] at hslot hshows
    dsimp only at hslot hshows ⊢
    rw [hform, Option.getD_some, hslot, Option.getD_some]
    exact ⟨(entry_inside hstores hwanted).1, rfl, u.1, hshows⟩

end Layout

namespace Pairing

/-- Calls of a setter on an object, before and after it was given another body. -/
def ofSetBody (ctx : BlockContext) (hunique : ctx.module.UniqueTokens) {i : MethodId} {d : Method} {body : Body}
    (hmethod : ctx.module.method? i = some d) (hbody : d.body = some body) (result : Body) (serial : Nat)
    {bound bound' : Nat} (hbound : bound ≤ bound' + 1) (s : Machine) (r : HeapRef) (type : Token)
    (fieldOf : String → Field)
    (hready : ctx.Ready { ctx.module.setBody i (some result) with serial } s.hooks type fieldOf)
    (before : String → Bool → UInt16) (held : String → Value) (count : Nat) : Pairing where
  m := ctx.module
  m' := { ctx.module.setBody i (some result) with serial }
  alike := Module.alike_setBody hmethod (by rw [hbody]; rfl) result _
  unique := hunique
  d
  d' := { d with body := some result }
  signature := by
    unfold Method.signature
    rw [hbody]
    rfl
  setter := i
  bodies j hj e e' he he' := by
    have hsame : (ctx.module.setBody i (some result)).method? j = some e' := he'
    rw [Module.method?_setBody_of_ne _ (Ne.symm hj), he] at hsame
    rw [Option.some.inj hsame]
  bound
  bound'
  bound_le := hbound
  ctx
  this := r
  type
  hooks := s.hooks
  fieldOf
  ready := hready
  entry := s.heap
  before
  held
  first := body.slots.length
  count
  base := s.news
  base' := s.news

variable {P : Pairing}

theorem machines_start {s T : Machine} (limit : Nat) {fields : TokenMap Value}
    (hsound : Renaming.Sound P.m s) (hobject : s.heap.get? P.this = some (.object P.type fields))
    (hdepth : s.depth < maxDepth)
    (hroom : (s.limit - s.executed) * P.scale + 16 * P.ctx.promised.length ≤ limit - s.executed)
    (hentry : P.entry = s.heap) (hhooks : P.hooks = s.hooks) (hbase : P.base = s.news)
    (hbase' : P.base' = s.news) (hextends : ({ s with limit } : Machine).Extends P.m' T [])
    (hcost : T.executed ≤ s.executed + 16 * P.ctx.promised.length)
    (hheld : ∀ t ∈ P.ctx.promised, ∀ boxed, P.ctx.type.invoker.valueForm? = some boxed →
      ∃ u : Property, T.heap.Shows P.m' u.type boxed (P.new.fieldValue fields (P.fieldOf t.name))
        (P.held t.name)) :
    P.Machines (.same s.heap 0) s T := by
  have hstate : P.likeness.state (.same s.heap 0) s T := by
    have hbeside := (Renaming.State.same hsound hroom).beside s.trace (hextends.of_alike P.alike) hcost
      (Nat.le_refl _) (List.append_nil _).symm .nil
    rw [show (Renaming.World.same s.heap (16 * P.ctx.promised.length)).spare - 16 * P.ctx.promised.length = 0
      from Nat.sub_self _] at hbeside
    show Renaming.State P.m P.scale P.base P.base' _ s T
    rw [hbase, hbase']
    exact hbeside
  refine ⟨hstate, Renaming.refs_same.mpr ⟨rfl, ?_⟩, ⟨fields, hextends.heap _ _ hobject⟩,
    hextends.hooks.trans hhooks.symm, ?_, fun t ht hform => ?_⟩
  · obtain ⟨hpos, hle⟩ := Heap.get?_eq_some hobject
    exact ⟨Nat.pos_iff_ne_zero.mp hpos, hle⟩
  · rw [hextends.depth]
    exact hdepth
  · obtain ⟨boxed, hboxed⟩ := Option.isSome_iff_exists.mp hform
    obtain ⟨u, hshows⟩ := hheld t ht boxed hboxed
    rw [hentry]
    cases hsound.objects _ _ hobject with
    | object _ hfields => exact stands_of_shows (values_held hobject hfields _) hshows

theorem frames_start {w : Renaming.World} {body result : Body} {new : List TypeId} {value : Value} {g : Frame}
    {stored : List UInt16} (hslots : result.slots = body.slots ++ new) (hfirst : P.first = body.slots.length)
    (hcount : P.count = new.length) (hthis : Renaming.worlds.refs w P.this P.this)
    (hvalue : Renaming.worlds.Values w value value)
    (hbeside : (P.new.setFrame result P.this value).Beside stored g)
    (hbehind : ∀ i ∈ stored, body.slots.length ≤ i.toNat)
    (hheld : ∀ t ∈ P.ctx.promised, ∀ boxed, P.ctx.type.invoker.valueForm? = some boxed →
      P.first ≤ (P.before t.name boxed).toNat
        ∧ g.slots[(P.before t.name boxed).toNat]? = some (P.held t.name)) :
    P.Frames w (P.old.setFrame body P.this value) g := by
  have hstart : P.likeness.Frames w [] (P.old.setFrame body P.this value)
      (P.new.setFrame body P.this value) :=
    Likeness.frames_start body (.cons (.ref hthis) (.cons hvalue .nil))
  obtain ⟨rest, hrest⟩ := P.new.startSlots_append hslots
  obtain ⟨slots, hstarted, hrel⟩ := hstart.slots
  have hwoven : P.likeness.Frames w rest (P.old.setFrame body P.this value)
      (P.new.setFrame result P.this value) := by
    refine ⟨hstart.arguments, ⟨slots, ?_, hrel⟩, .nil⟩
    rw [List.append_nil] at hstarted
    exact hrest.trans (congrArg (· ++ rest) hstarted)
  have hlength : rest.length = P.count := by
    have hall := congrArg List.length hrest
    rw [Site.length_startSlots, List.length_append, Site.length_startSlots, hslots, List.length_append] at hall
    omega
  have hcommon : (P.old.setFrame body P.this value).slots.length = body.slots.length :=
    Site.length_startSlots _ body
  obtain ⟨rest', hframes, hlength'⟩ := hwoven.beside hbeside fun i hi => hcommon ▸ hbehind i hi
  exact ⟨⟨rest', hframes, hlength'.trans hlength⟩, hcommon.trans hfirst.symm, rfl, hheld⟩

end Pairing

namespace Weaving

variable {ctx : BlockContext} {cache : CapabilityCache} {w' : Workpiece} {woven : WovenSetter}
  {i : MethodId} {d : Method} {body : Body}

/-- Without the changes inside the value no handler is declared, and only the setter's body is another
one. -/
theorem laidOut_plain (hchild : ctx.options.childChanges = false)
    (h : LaidOut ctx.options ctx.resolver ctx.type ctx.property ⟨ctx.module, cache⟩ w' i body) :
    ∃ called before result,
      ∃ l : Layout ctx none called (ctx.property.anchors body.code).1 before,
        w'.module = { ctx.module.setBody i (some result) with serial := w'.module.serial }
          ∧ result.code = l.weave body.code
          ∧ (∃ count, ((l.injected body.code).map (·.label)).Perm
            ((List.range' ctx.module.serial count).map .drawn))
          ∧ ∃ new, result.slots = body.slots ++ new
            ∧ (result.slots.length ≤ 65536 →
              l.StoresInto body.code body.slots.length new.length) := by
  obtain ⟨m, subscription, before, result, l, hsubscription, -, hmodule, hcode,
    ⟨count, -, hlabels⟩, new, hslots, hstored⟩ := h
  have hnone : followed? ctx.options ctx.type ctx.property ⟨ctx.module, cache⟩ body.code = none := by
    unfold followed? followedEvent?
    rw [hchild]
    split <;> rfl
  rw [hnone] at hsubscription
  obtain ⟨rfl, rfl⟩ := hsubscription
  exact ⟨_, before, result, l, hmodule, hcode, ⟨count, hlabels⟩, new, hslots, hstored⟩

/-- A setter with a body is called on an object of the type. -/
structure Assigning (m : Module) (i : MethodId) (d : Method) (body : Body) (s : Machine)
    (r : HeapRef) (type : Token) (value : Value) : Prop where
  unique : m.UniqueTokens
  method : m.method? i = some d
  body : d.body = some body
  isInstance : d.isStatic = false
  sound : Renaming.Sound m s
  object : ∃ fields, s.heap.get? r = some (.object type fields)
  value : Renaming.worlds.Values (.same s.heap 0) value value
  depth : s.depth + 1 < maxDepth

/-- A setter that stores its value does the same after weaving, and tells the promised targets behind each
store. -/
theorem setter_preserved {s t : Machine} {r : HeapRef} {type : Token} {value v : Value}
    {bound bound' limit : Nat} {fieldOf : String → Field}
    (hoptions : ctx.options = .notificationsOnly) (hset : ctx.property.property.setter = some i)
    (hstores : (ctx.property.anchors body.code).2 = true)
    (hsettled : body.code.Settled ctx.module.serial)
    (hrun : (setter ctx.options ctx.resolver ctx.type ctx.property).run.run ⟨ctx.module, cache⟩
      = (.ok woven, w'))
    (hfits : ∀ result, (w'.module.method? i).bind (·.body) = some result →
      result.slots.length ≤ 65536)
    (hassigning : Assigning ctx.module i d body s r type value)
    (hannounces : ctx.type.invoker.Announces w'.module s.hooks type)
    (hreads : ctx.type.invoker.valueForm?.isSome → ∀ u ∈ ctx.property.targets,
      u.ReadsFrom (fieldOf u.name) w'.module s.hooks type)
    (hquiet : ∀ q ∈ (ctx.property.anchors body.code).1, ∀ g u,
      (⟨ctx.module, d⟩ : Site).FallsOnto (Action.invokeAvoiding ctx.module i bound) body.code 0
        ((⟨ctx.module, d⟩ : Site).setFrame body r value) { s with depth := s.depth + 1 } q g u →
          u.Unheard ctx.module r)
    (hends : ((⟨ctx.module, d⟩ : Site).runBody (Action.invokeAvoiding ctx.module i bound)
      (some (.ref r)) [value]).run.run s = (.ok v, t))
    (hlimit : (s.limit - s.executed + 1) * (16 * ctx.promised.length + 1) ≤ limit - s.executed)
    (hbound : bound ≤ bound' + 1) :
    ∃ y w₁ d' v' t',
      (⟨ctx.module, d⟩ : Site).Ends (Action.invokeAvoiding ctx.module i bound) body.code
          (Site.telling (ctx.property.anchors body.code).1
            (ctx.announcements ctx.module r fieldOf s.heap)) 0
          ((⟨ctx.module, d⟩ : Site).setFrame body r value) { s with depth := s.depth + 1 } v y
        ∧ t = { y with trace := t.trace, depth := y.depth - 1 }
        ∧ w'.module.method? i = some d'
        ∧ ((⟨w'.module, d'⟩ : Site).runBody (Action.invokeAt w'.module (bound' + 1))
            (some (.ref r)) [value]).run.run { s with limit } = (.ok v', t')
        ∧ (Renaming.World.same s.heap 0).images <+: w₁.images
        ∧ Renaming.State ctx.module (16 * ctx.promised.length + 1) s.news s.news w₁
          { y with depth := y.depth - 1 } t'
        ∧ Renaming.worlds.Values w₁ v v' := by
  obtain ⟨hunique, hmethod, hbody, hinstance, hsound, ⟨fields, hobject⟩, hvalue, hdepth⟩ :=
    hassigning
  have hplain := congrArg Options.childChanges hoptions
  have hhooks := congrArg Options.changeHooks hoptions
  have hflag := congrArg Options.dirtyFlag hoptions
  obtain ⟨called, before, result, l, hmodule, hcode, ⟨count, hlabels⟩, new, hslots, hstored⟩ :=
    laidOut_plain hplain
      (laidOut_setter hset (by show (ctx.module.method? i).bind _ = _; rw [hmethod]; exact hbody) hrun)
  obtain ⟨m', cache'⟩ := w'
  obtain ⟨serial, rfl⟩ : ∃ serial, m' = { ctx.module.setBody i (some result) with serial } := ⟨_, hmodule⟩
  let d' : Method := { d with body := some result }
  have hmethod' : (ctx.module.setBody i (some result)).method? i = some d' := Module.method?_setBody hmethod _
  have hinto := hstored (hfits result (by
    show ((ctx.module.setBody i (some result)).method? i).bind _ = _
    rw [hmethod', Option.bind_some]))
  have hready : ctx.Ready { ctx.module.setBody i (some result) with serial } s.hooks type fieldOf :=
    ⟨rfl, hannounces, hreads⟩
  let c : Site := ⟨{ ctx.module.setBody i (some result) with serial }, d'⟩
  have hall : (c.startSlots result).length = body.slots.length + new.length := by
    rw [Site.length_startSlots, hslots, List.length_append]
  rw [Nat.add_mul, Nat.one_mul] at hlimit
  -- the code in front of both runs
  obtain ⟨g, T, stored, held, hprologue, hbeside, hbehind, hextends, hcost, hheld⟩ :=
    Layout.runs_prologue hinto hhooks (c := c) bound' (f := c.setFrame result r value)
      (s := { s with limit, depth := s.depth + 1 }) hready hobject rfl hall hdepth
      (by show 16 * ctx.promised.length ≤ limit - s.executed; omega)
  let P := Pairing.ofSetBody ctx hunique hmethod hbody result serial hbound s r type fieldOf hready before held
    new.length
  have hmachines : P.Machines (.same s.heap 0) { s with depth := s.depth + 1 } T := by
    refine P.machines_start (s := { s with depth := s.depth + 1 }) limit
      ⟨hsound.objects, hsound.learned, hsound.members⟩ hobject hdepth ?_ rfl rfl rfl rfl hextends hcost fun t ht boxed hform => (hheld t ht boxed hform).2.2
    show (s.limit - s.executed) * (16 * ctx.promised.length + 1) + 16 * ctx.promised.length ≤ limit - s.executed
    omega
  have hframes : P.Frames (.same s.heap 0) ((⟨ctx.module, d⟩ : Site).setFrame body r value) g :=
    P.frames_start hslots rfl rfl hmachines.receiver hvalue hbeside hbehind fun t ht boxed hform =>
      ⟨(hheld t ht boxed hform).1, (hheld t ht boxed hform).2.1⟩
  -- the two runs side by side
  obtain ⟨x, hx, rfl⟩ := Site.ends_of_runBody hbody hinstance hends
  obtain ⟨trace', htold⟩ := Site.ends_telling
    (ctx.announcements ctx.module r fieldOf s.heap) P.Quiet hx
    (fun q hq g u hfalls y hy => Action.unheard_of_heap (hquiet q hq g u hfalls) (by rw [hy]))
    s.trace
  have hblocks : ∀ q ∈ (ctx.property.anchors body.code).1,
      P.ctx.Notifies P.before P.first P.count ((l.block body.code q).map (·.op)) := fun q hq =>
    Layout.notifies hinto hhooks hflag hq (PropertyPlan.le_length_of_mem_anchors hq)
  obtain ⟨w₁, v', t', himages, hmachines', hv, hwoven⟩ := Pairing.ends_paired (P := P)
    (fun q => (l.block body.code q).map (·.op)) hblocks
    (fun q hq => by rw [l.block_eq, if_neg hq]; rfl) htold hmachines hframes
  have hnone : l.block body.code 0 = [] := by
    rw [l.block_eq, if_neg]
    exact fun hmem => Nat.lt_irrefl 0 (PropertyPlan.pos_of_mem_anchors hstores hmem)
  have hends' := (Site.ends_interleave (l.aside hsettled hlabels)).mpr
    ⟨g, T, g, T, hprologue, by rw [hnone]; exact .nil g T, hwoven⟩
  refine ⟨_, w₁, d', v', _, htold.imp fun _ _ _ _ _ h => h.1, rfl, hmethod',
    (Site.runBody_ok_iff (d := d') rfl hinstance).mpr ⟨t', ?_, rfl⟩, himages, ?_, hv⟩
  · rw [hcode]
    exact hends'
  · exact Renaming.State.nested hmachines'.state
      (congrArg (· - 1) (Renaming.State.depth hmachines'.state))

end Weaving

/-! ## A gauge and its handlers -/

namespace Gauge

def level : Field := ⟨⟨1⟩, "<Level>k__BackingField", .privateBit, ⟨0⟩⟩

def handlers : Field := ⟨⟨2⟩, Surface.changedEvent, .privateBit, ⟨3⟩⟩

def name : Field := ⟨⟨3⟩, Surface.nameField, .privateBit, ⟨5⟩⟩

def property : Property := ⟨⟨20⟩, "Level", ⟨0⟩, some ⟨0⟩, some ⟨1⟩, []⟩

def method (token : UInt32) (name : String) (params : Nat) (owner : TypeId)
    (body : Option (List Op)) (returns : Option TypeId := none) : Method where
  token := ⟨token⟩
  name
  access := .publicAccess
  modifiers := .hideBySig
  params := List.replicate params ⟨"value", ⟨5⟩⟩
  returns
  owner := some owner
  body := body.map fun ops =>
    .ofCode (ops.mapIdx fun k op => ⟨.written (.ofNat k), op⟩)

/-- A module with the given setter for the level of a gauge. -/
def module (set : List Op) : Module where
  name := "Gauge"
  types := #[some ⟨⟨10⟩, "System", "Int32", .int32, true, none, [], [], [], [], [], []⟩,
    some ⟨⟨11⟩, "", "Gauge", .classType, false, none, [], [level, handlers],
      [⟨0⟩, ⟨1⟩, ⟨2⟩, ⟨3⟩, ⟨4⟩], [property], [], []⟩,
    some ⟨⟨12⟩, "System", "MulticastDelegate", .classType, true, none, [], [], [], [], [], []⟩,
    some ⟨⟨13⟩, "System.ComponentModel", "PropertyChangedEventHandler", .classType, true, some ⟨2⟩,
      [], [], [⟨5⟩], [], [], []⟩,
    some ⟨⟨14⟩, "System.ComponentModel", "PropertyChangedEventArgs", .classType, true, none, [],
      [name], [⟨6⟩], [], [], []⟩,
    some ⟨⟨15⟩, "System", "Object", .object, true, none, [], [], [], [], [], []⟩]
  methods := #[some (method 30 "get_Level" 0 ⟨1⟩ (some [.ldarg 0, .ldfld level, .ret]) (some ⟨0⟩)),
    some (method 31 "set_Level" 1 ⟨1⟩ (some set)),
    some (method 32 Surface.raiser 3 ⟨1⟩ none),
    some (method 33 (Surface.adder Surface.changedEvent) 1 ⟨1⟩ none),
    some (method 34 "Shout" 2 ⟨1⟩ (some [.pop, .ret])),
    some (method 35 Surface.constructor 2 ⟨3⟩ none),
    some (method 36 Surface.constructor 1 ⟨4⟩ (some [.ldarg 0, .ldarg 1, .stfld name, .ret]))]
  registry := ((Registry.insert {} ⟨11⟩ "Gauge" ⟨1⟩).insert ⟨14⟩ Surface.eventArgs ⟨4⟩).insert ⟨13⟩
    Surface.eventHandler ⟨3⟩

def resolver : Resolver where
  objectType := fun _ => .ok ⟨5⟩
  objectEquals := fun _ => .ok ⟨7⟩
  handlerConstructor := fun _ => .ok ⟨5⟩
  eventArgsType := fun _ => .ok ⟨4⟩
  eventArgsConstructor := fun _ => .ok ⟨6⟩

/-- What the setter is woven from. -/
def ctx (set : List Op) : BlockContext where
  options := .notificationsOnly
  resolver
  module := module set
  type := { type := ⟨1⟩, invoker := .beforeAfter ⟨2⟩ }
  property := { property, backing := some level }

def woven (set : List Op) : Except Error WovenSetter × Workpiece :=
  (Weaving.setter (ctx set).options (ctx set).resolver (ctx set).type (ctx set).property).run.run
    ⟨(ctx set).module, {}⟩

/-- A machine with one gauge. -/
def machine : Machine :=
  { Machine.withRuntimeMembers with heap := { objects := #[.object ⟨11⟩ .empty] } }

/-- Store the argument. -/
def quiet : List Op := [.ldarg 0, .ldarg 1, .stfld level, .ret]

/-- Add a handler that fails, and then store the argument. -/
def loud : List Op :=
  [.ldarg 0, .ldarg 0, .ldftn ⟨4⟩, .newobj ⟨5⟩, .callvirt ⟨3⟩] ++ quiet

end Gauge

namespace Gauge

def accessor (set : List Op) : Method := method 31 "set_Level" 1 ⟨1⟩ (some set)

def body (set : List Op) : Body :=
  .ofCode (set.mapIdx fun k op => ⟨.written (.ofNat k), op⟩)

theorem assigning (set : List Op) (limit : Nat) :
    Weaving.Assigning (module set) ⟨1⟩ (accessor set) (body set) { machine with limit } ⟨1⟩ ⟨11⟩
      (.int 1) where
  unique := by
    refine Module.uniqueTokens_of_nodup ?_
    show [some (⟨30⟩ : Token), some ⟨31⟩, some ⟨32⟩, some ⟨33⟩, some ⟨34⟩, some ⟨35⟩,
      some ⟨36⟩].Nodup
    decide
  method := rfl
  body := rfl
  isInstance := (by decide : Modifiers.hideBySig.contains .staticBit = false)
  sound := by
    refine ⟨fun r o ho => ?_, fun k i hk => ?_, fun h hh => ?_⟩
    · obtain ⟨hpos, hle⟩ := Heap.get?_eq_some ho
      have hr : r = ⟨1⟩ := by
        have hsize : r.id ≤ 1 := hle
        cases r
        simp only at hpos hsize
        congr 1
        omega
      subst hr
      obtain rfl := Option.some.inj ho
      refine .object _ fun k => ?_
      rw [TokenMap.get?_empty]
      exact .none
    · have hnone : (TokenMap.empty : TokenMap MethodId).get? k = some i := hk
      rw [TokenMap.get?_empty] at hnone
      cases hnone
    · have hall : ∀ h ∈ Machine.withRuntimeMembers.hooks, ∃ member ∈ RuntimeMember.all,
          h.action = .runtime member := by decide +kernel
      obtain ⟨member, -, haction⟩ := hall h hh
      exact ⟨member, haction⟩
  object := ⟨.empty, rfl⟩
  value := .int 1
  depth := (by decide : 0 + 1 < maxDepth)

theorem woven_quiet : woven quiet = (.ok ⟨[3], 1, none⟩, (woven quiet).2) :=
  Prod.ext (by decide +kernel) rfl

theorem fits_quiet (result : Body) (h : ((woven quiet).2.module.method? ⟨1⟩).bind (·.body) = some result) :
    result.slots.length ≤ 65536 := by
  have htwo : (((woven quiet).2.module.method? ⟨1⟩).bind (·.body)).map (·.slots.length) = some 2 := by
    decide +kernel
  rw [h, Option.map_some] at htwo
  have hlength := Option.some.inj htwo
  omega

theorem settled_quiet : (body quiet).code.Settled (module quiet).serial := by
  have hnone : ∀ j ∈ (body quiet).code, j.op.target? = none := by decide +kernel
  intro j hj l hl
  rw [hnone j hj] at hl
  cases hl

theorem announces_quiet : (ctx quiet).type.invoker.Announces (woven quiet).2.module machine.hooks ⟨11⟩ := by
  refine ⟨⟨method 32 Surface.raiser 3 ⟨1⟩ none, method 32 Surface.raiser 3 ⟨1⟩ none,
    by decide +kernel, by decide, rfl, rfl, by decide +kernel, rfl,
    RuntimeMember.raise.hook, by decide +kernel, rfl⟩, nofun⟩

theorem reads_quiet : ∀ u ∈ (ctx quiet).property.targets,
    u.ReadsFrom level (woven quiet).2.module machine.hooks ⟨11⟩ := by
  intro u hu
  obtain rfl : u = property := List.mem_singleton.mp hu
  let getter := method 30 "get_Level" 0 ⟨1⟩ (some [.ldarg 0, .ldfld level, .ret]) (some ⟨0⟩)
  refine ⟨⟨0⟩, getter, getter, rfl, by decide +kernel, by decide, rfl, rfl, by decide +kernel,
    ⟨by decide, rfl, rfl, _, rfl, rfl⟩, by decide +kernel⟩

end Gauge

namespace Weaving

open Gauge in
/-- A setter that stores its argument stores it after weaving, and announces it. -/
theorem setter_preserved_quiet :
    ∃ y w₁ d' v' t',
      (⟨module quiet, accessor quiet⟩ : Site).Ends (Action.invokeAvoiding (module quiet) ⟨1⟩ 7)
          (body quiet).code
          (Site.telling [3] ((ctx quiet).announcements (module quiet) ⟨1⟩ (fun _ => level)
            machine.heap)) 0
          ((⟨module quiet, accessor quiet⟩ : Site).setFrame (body quiet) ⟨1⟩ (.int 1))
          { machine with limit := 9, depth := 1 } .void y
        ∧ (woven quiet).2.module.method? ⟨1⟩ = some d'
        ∧ ((⟨(woven quiet).2.module, d'⟩ : Site).runBody
            (Action.invokeAt (woven quiet).2.module 8) (some (.ref ⟨1⟩)) [.int 1]).run.run
              { machine with limit := 170 } = (.ok v', t')
        ∧ Renaming.State (module quiet) 17 [] [] w₁ { y with depth := y.depth - 1 } t' := by
  have hquiet : ∀ q ∈ [3], ∀ g u,
      (⟨module quiet, accessor quiet⟩ : Site).FallsOnto
        (Action.invokeAvoiding (module quiet) ⟨1⟩ 7) (body quiet).code 0
        ((⟨module quiet, accessor quiet⟩ : Site).setFrame (body quiet) ⟨1⟩ (.int 1))
        { machine with limit := 9, depth := 1 } q g u → u.Unheard (module quiet) ⟨1⟩ := by
    intro q hq g u hfalls
    obtain rfl := List.mem_singleton.mp hq
    -- the three instructions in front go on one after the other, and the last one returns
    rcases hfalls.of_step rfl rfl with ⟨hp, -⟩ | hfalls
    · omega
    rcases hfalls.of_step rfl rfl with ⟨hp, -⟩ | hfalls
    · omega
    rcases hfalls.of_step rfl rfl with ⟨-, rfl⟩ | hfalls
    · refine ⟨⟨11⟩, _, rfl, fun f hf r => ?_⟩
      have hfield : (module quiet).eventField? ⟨11⟩ = some handlers := by decide +kernel
      obtain rfl := Option.some.inj (hfield.symm.trans hf)
      nofun
    · exact absurd hfalls (Site.not_fallsOnto_of_done rfl rfl)
  have hends : (((⟨module quiet, accessor quiet⟩ : Site).runBody
      (Action.invokeAvoiding (module quiet) ⟨1⟩ 7) (some (.ref ⟨1⟩)) [.int 1]).run.run
        { machine with limit := 9 }).1 = .ok .void := by decide +kernel
  have hroom : (9 - 0 + 1) * (16 * (ctx quiet).promised.length + 1) ≤ 170 - 0 := by decide +kernel
  have hdeep : 7 ≤ 7 + 1 := by decide
  obtain ⟨y, w₁, d', v', t', htold, -, hd', hruns, -, hstate, -⟩ := @setter_preserved (ctx quiet)
    {} (woven quiet).2 ⟨[3], 1, none⟩ ⟨1⟩ (accessor quiet) (body quiet)
    { machine with limit := 9 } _ ⟨1⟩ ⟨11⟩ (.int 1) .void 7 7 170 (fun _ => level) rfl rfl
    (by decide +kernel) settled_quiet woven_quiet fits_quiet (assigning quiet 9) announces_quiet
    (fun _ => reads_quiet)
    hquiet (Prod.ext hends rfl) hroom hdeep
  exact ⟨y, w₁, d', v', t', htold, hd', hruns, hstate⟩

open Gauge in
/-- A setter that adds a handler by itself works before weaving, and fails after it. -/
theorem loud_not_preserved :
    (woven loud).1 = .ok ⟨[8], 1, none⟩
      ∧ machine.Unheard (module loud) ⟨1⟩
      ∧ ((Action.setProperty (module loud) ⟨1⟩ property (.int 1)).run.run machine).1 = .ok ()
      ∧ ((Action.setProperty (woven loud).2.module ⟨1⟩ property (.int 1)).run.run machine).1
        = .error (.runtimeMember "on-property-changed" "Gauge::OnPropertyChanged"
          (.emulation (.stackUnderflow "Gauge::Shout"))) := by
  refine ⟨by decide +kernel, ⟨⟨11⟩, .empty, rfl, fun f _ q => ?_⟩, by decide +kernel,
    by decide +kernel⟩
  rw [TokenMap.get?_empty]
  nofun

end Weaving

end SetterLoom
