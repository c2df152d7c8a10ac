import ShaderChain.Proofs.Json.Record
import ShaderChain.Proofs.Script.Sites
import ShaderChain.Script.Json

/-! Outlines come back from the JSON that they are written as. -/

namespace ShaderChain

namespace Outline

/-! Chains and ops are read as records, and their lists item by item. -/

theorem argList?_eq (items : List Json) : argList? items = items.mapM argOfJson? := by
  induction items with
  | nil => rw [argList?]; rfl
  | cons item rest ih => rw [argList?, List.mapM_cons, ih]

theorem opList?_eq (items : List Json) : opList? items = items.mapM opOfJson? := by
  induction items with
  | nil => rw [opList?]; rfl
  | cons item rest ih => rw [opList?, List.mapM_cons, ih]

theorem argsOfJson?_eq (json : Json) : argsOfJson? json = json.list? argOfJson? := by
  cases json with
  | array items => rw [argsOfJson?, argList?_eq]; rfl
  | null | bool | number | string | object | unreadable =>
      rw [argsOfJson?]
      · rfl
      all_goals exact nofun

theorem opsOfJson?_eq (json : Json) : opsOfJson? json = json.list? opOfJson? := by
  cases json with
  | array items => rw [opsOfJson?, opList?_eq]; rfl
  | null | bool | number | string | object | unreadable =>
      rw [opsOfJson?]
      · rfl
      all_goals exact nofun

/-- A member that is read while it is looked for is the one under this name. -/
theorem eq_unique? {name : String} {read? : Json → Option α}
    {look? : List (String × Json) → Option (Option α)} (hnil : look? [] = some none)
    (hcons : ∀ key value rest, look? ((key, value) :: rest) =
      if key = name then
        (look? rest).bind fun later => later.elim ((read? value).map some) fun _ => none
      else look? rest) (members : List (String × Json)) :
    look? members = (Json.unique? name members).bind fun field =>
      field.elim (some none) fun value => (read? value).map some := by
  induction members with
  | nil => rw [hnil]; rfl
  | cons member rest ih =>
      obtain ⟨key, value⟩ := member
      rw [hcons, Json.unique?, ih]
      split
      · rcases Json.unique? name rest with _ | _ | other
        · rfl
        · rfl
        · rw [Option.bind_some, Option.elim_some]
          cases read? other <;> rfl
      · rfl

theorem opsMember?_eq (members : List (String × Json)) :
    opsMember? members = (Json.unique? "ops" members).bind fun field =>
      field.elim (some none) fun value => (opsOfJson? value).map some := by
  apply eq_unique?
  · rw [opsMember?]
  · intro name value rest
    rw [opsMember?]
    rcases opsMember? rest with _ | _ | _ <;> rfl

theorem argsMember?_eq (members : List (String × Json)) :
    argsMember? members = (Json.unique? "args" members).bind fun field =>
      field.elim (some none) fun value => (argsOfJson? value).map some := by
  apply eq_unique?
  · rw [argsMember?]
  · intro name value rest
    rw [argsMember?]
    rcases argsMember? rest with _ | _ | _ <;> rfl

theorem record?_pair (first second : String) (members : List (String × Json)) :
    (Json.object members).record? [first, second] =
      (Json.unique? first members).bind fun a =>
        (Json.unique? second members).map fun b => [a, b] := by
  simp only [Json.record?, List.mapM_cons, List.mapM_nil]
  cases Json.unique? first members <;> cases Json.unique? second members <;> rfl

def ofFields? : List (Option Json) → Option Outline
  | [ops, getter] => do
      let ops ← Json.required? (Json.list? opOfJson?) ops
      let getter ← Json.optional? Json.text? getter
      return ⟨ops, getter⟩
  | _ => none

def opOfFields? : List (Option Json) → Option Op
  | [op, args] => do
      let op ← Json.required? Json.text? op
      let args ← Json.withDefault? [] (Json.list? argOfJson?) args
      return ⟨op, args⟩
  | _ => none

theorem ofJson?_eq (json : Json) :
    ofJson? json = (json.record? ["ops", "getter"]).bind ofFields? := by
  cases json with
  | object members =>
      rw [ofJson?, ofMembers?, opsMember?_eq, record?_pair]
      rcases Json.unique? "ops" members with _ | _ | ops <;>
        rcases Json.unique? "getter" members with _ | getter
      all_goals simp [ofFields?, Json.required?, ← opsOfJson?_eq]
      cases opsOfJson? ops <;> cases Json.optional? Json.text? getter <;> rfl
  | array items =>
      match items with
      | [] => rfl
      | [ops] => rw [ofJson?, opsOfJson?_eq]; rfl
      | [ops, getter] => rw [ofJson?, opsOfJson?_eq]; rfl
      | _ :: _ :: _ :: _ => simp [ofJson?, Json.record?]
  | null | bool | number | string | unreadable => rfl

theorem opOfJson?_eq (json : Json) :
    opOfJson? json = (json.record? ["op", "args"]).bind opOfFields? := by
  cases json with
  | object members =>
      rw [opOfJson?, argsMember?_eq, record?_pair]
      rcases Json.unique? "op" members with _ | op <;>
        rcases Json.unique? "args" members with _ | _ | args
      all_goals simp [opOfFields?, Json.withDefault?, ← argsOfJson?_eq]
      cases Json.required? Json.text? op <;> cases argsOfJson? args <;> rfl
  | array items =>
      match items with
      | [] => simp [opOfJson?, Json.record?, opOfFields?, Json.required?]
      | [op] => simp [opOfJson?, Json.record?, opOfFields?, Json.required?, Json.withDefault?]
      | [op, args] => rw [opOfJson?, argsOfJson?_eq]; rfl
      | _ :: _ :: _ :: _ => simp [opOfJson?, Json.record?]
  | null | bool | number | string | unreadable => simp [opOfJson?, Json.record?]

theorem ofJson?_eq_some {json : Json} {o : Outline} :
    ofJson? json = some o ↔ ∃ ops getter, json.record? ["ops", "getter"] = some [ops, getter] ∧
      Json.required? (Json.list? opOfJson?) ops = some o.ops ∧
      Json.optional? Json.text? getter = some o.getter := by
  rw [ofJson?_eq, Option.bind_eq_some_iff]
  constructor
  · intro ⟨fields, hfields, ho⟩
    unfold ofFields? at ho
    split at ho
    · simp only [Option.bind_eq_bind, Option.bind_eq_some_iff, Option.pure_def,
        Option.some.injEq] at ho
      obtain ⟨_, hops, _, hgetter, rfl⟩ := ho
      exact ⟨_, _, hfields, hops, hgetter⟩
    · cases ho
  · intro ⟨_, _, hfields, hops, hgetter⟩
    refine ⟨_, hfields, ?_⟩
    simp only [ofFields?, hops, hgetter]
    rfl

theorem opOfJson?_eq_some {json : Json} {op : Op} :
    opOfJson? json = some op ↔ ∃ name args, json.record? ["op", "args"] = some [name, args] ∧
      Json.required? Json.text? name = some op.op ∧
      Json.withDefault? [] (Json.list? argOfJson?) args = some op.args := by
  rw [opOfJson?_eq, Option.bind_eq_some_iff]
  constructor
  · intro ⟨fields, hfields, hop⟩
    unfold opOfFields? at hop
    split at hop
    · simp only [Option.bind_eq_bind, Option.bind_eq_some_iff, Option.pure_def,
        Option.some.injEq] at hop
      obtain ⟨_, hname, _, hargs, rfl⟩ := hop
      exact ⟨_, _, hfields, hname, hargs⟩
    · cases hop
  · intro ⟨_, _, hfields, hname, hargs⟩
    refine ⟨_, hfields, ?_⟩
    simp only [opOfFields?, hname, hargs]
    rfl

/-- What an argument is read from. -/
inductive ReadFrom (json : Json) : Arg → Prop
  | number {n : Json.Number} (hjson : json = .number n) : ReadFrom json (.number n.toBinary64)
  | uniform {members : List (String × Json)} {value : Json} {x : Binary64}
      (hjson : json = .object members) (hmember : ("uniform", value) ∈ members)
      (hx : value.number? = some x) : ReadFrom json (.uniform x)
  | texture (name : String) : ReadFrom json (.texture name)
  | chain {o : Outline} (ho : ofJson? json = some o) : ReadFrom json (.chain o)

theorem readFrom_of_uniform? {members : List (String × Json)} {arg : Arg}
    (harg : uniform? members = some arg) : ReadFrom (.object members) arg := by
  simp only [uniform?, Json.required?, Option.bind_eq_bind, Option.bind_eq_some_iff,
    Option.pure_def, Option.some.injEq] at harg
  obtain ⟨_, hfield, x, ⟨value, rfl, hx⟩, rfl⟩ := harg
  exact .uniform rfl (Json.mem_of_unique? hfield) hx

theorem readFrom_of_texture? {members : List (String × Json)} {arg : Arg}
    (harg : texture? members = some arg) : ReadFrom (.object members) arg := by
  simp only [texture?, Option.bind_eq_bind, Option.bind_eq_some_iff, Option.pure_def,
    Option.some.injEq] at harg
  obtain ⟨_, -, name, -, rfl⟩ := harg
  exact .texture name

theorem readFrom_of_argOfJson? {json : Json} {arg : Arg} (harg : argOfJson? json = some arg) :
    ReadFrom json arg := by
  unfold argOfJson? at harg
  split at harg
  · cases harg
    exact .number rfl
  · rename_i members
    cases huniform : uniform? members with
    | some found =>
        rw [huniform] at harg
        exact readFrom_of_uniform? (huniform.trans harg)
    | none =>
        cases htexture : texture? members with
        | some found =>
            rw [huniform, htexture] at harg
            exact readFrom_of_texture? (htexture.trans harg)
        | none =>
            rw [huniform, htexture] at harg
            obtain ⟨o, ho, rfl⟩ := Option.map_eq_some_iff.mp harg
            exact .chain ho
  · obtain ⟨ops, hops, harg⟩ := Option.bind_eq_some_iff.mp harg
    cases harg
    exact .chain (by rw [ofJson?, hops]; rfl)
  · obtain ⟨ops, hops, harg⟩ := Option.bind_eq_some_iff.mp harg
    obtain ⟨getter, hgetter, harg⟩ := Option.bind_eq_some_iff.mp harg
    cases harg
    exact .chain (by rw [ofJson?, hops, hgetter]; rfl)
  · cases harg

/-! What is written. -/

def opToJson (op : Op) : Json :=
  .object [("op", .string op.op), ("args", .array (op.args.map argToJson))]

theorem argsToJson_eq (args : List Arg) : argsToJson args = args.map argToJson := by
  induction args with
  | nil => rw [argsToJson]; rfl
  | cons arg rest ih => rw [argsToJson, ih, List.map_cons]

theorem opsToJson_eq (ops : List Op) : opsToJson ops = ops.map opToJson := by
  induction ops with
  | nil => rw [opsToJson]; rfl
  | cons op rest ih => rw [opsToJson, ih, argsToJson_eq]; rfl

theorem toJson_eq (o : Outline) :
    o.toJson = .object (("ops", .array (o.ops.map opToJson)) ::
      Json.optionalMember "getter" (o.getter.map .string)) := by
  rw [toJson, argToJson, opsToJson_eq]

/-! Numbers that can be written. -/

def Finite (o : Outline) : Prop :=
  ∀ path d, o.LeadsTo path d → ∀ op ∈ d.ops, ∀ x,
    .number x ∈ op.args ∨ .uniform x ∈ op.args → x.isFinite

def Arg.Finite : Arg → Prop
  | .number x => x.isFinite
  | .uniform x => x.isFinite
  | .texture _ => True
  | .chain o => Outline.Finite o

theorem finite_iff {o : Outline} : o.Finite ↔ ∀ op ∈ o.ops, ∀ arg ∈ op.args, arg.Finite := by
  constructor
  · intro ho op hop arg harg
    cases arg with
    | number x => exact ho [] o (.here o) op hop x (.inl harg)
    | uniform x => exact ho [] o (.here o) op hop x (.inr harg)
    | texture => trivial
    | chain inner =>
        obtain ⟨before, after, hops⟩ := List.append_of_mem hop
        obtain ⟨earlier, later, hargs⟩ := List.append_of_mem harg
        exact fun path d hleads => ho _ d (.nested hops hargs hleads)
  · intro hargs path d hleads
    cases hleads with
    | here =>
        intro op hop x hx
        rcases hx with hx | hx
        · exact hargs op hop _ hx
        · exact hargs op hop _ hx
    | @nested _ inner _ before after op earlier later _ hop harg hinner =>
        exact hargs op (by simp [hop]) (.chain inner) (by simp [harg]) _ d hinner

/-! Every outline is read back. -/

theorem opOfJson?_opToJson {op : Op}
    (hargs : ∀ arg ∈ op.args, argOfJson? (argToJson arg) = some arg) :
    opOfJson? (opToJson op) = some op :=
  opOfJson?_eq_some.mpr ⟨some (.string op.op), some (.array (op.args.map argToJson)), rfl, rfl,
    Json.list?_map hargs⟩

theorem record?_toJson (o : Outline) :
    o.toJson.record? ["ops", "getter"] =
      some [some (.array (o.ops.map opToJson)), o.getter.map .string] := by
  rw [toJson_eq]
  cases o.getter <;> rfl

/-- A chain has no member that another argument would be read from. -/
theorem argOfJson?_toJson (o : Outline) :
    argOfJson? o.toJson = (ofJson? o.toJson).map .chain := by
  rw [toJson_eq, argOfJson?]
  cases o.getter <;> rfl

theorem argOfJson?_argToJson {arg : Arg} (harg : arg.Finite)
    (hnested : ∀ inner, arg = .chain inner → ofJson? (toJson inner) = some inner) :
    argOfJson? (argToJson arg) = some arg := by
  cases arg with
  | number x =>
      have hx : x.isFinite := harg
      rw [argToJson, Json.ofBinary64, if_pos hx, argOfJson?]
      rfl
  | uniform x =>
      have hx : x.isFinite := harg
      rw [argToJson, Json.ofBinary64, if_pos hx, argOfJson?]
      rfl
  | texture name =>
      rw [argToJson, argOfJson?]
      rfl
  | chain inner =>
      have hread := argOfJson?_toJson inner
      rw [hnested inner rfl] at hread
      exact hread

theorem ofJson?_toJson {o : Outline} (ho : o.Finite) : ofJson? o.toJson = some o := by
  induction o using nestedInduction with
  | step o ih =>
      have hargs := finite_iff.mp ho
      refine ofJson?_eq_some.mpr ⟨_, _, o.record?_toJson, Json.list?_map fun op hop => ?_,
        Json.optional?_map fun _ _ => ⟨rfl, nofun⟩⟩
      refine opOfJson?_opToJson fun arg harg => ?_
      refine argOfJson?_argToJson (hargs op hop arg harg) fun inner hinner => ?_
      subst hinner
      exact ih op hop inner harg (hargs op hop _ harg)

/-! Every outline can be written. -/

theorem sound_argToJson {arg : Arg}
    (hnested : ∀ inner, arg = .chain inner → Json.Sound (toJson inner)) :
    (argToJson arg).Sound := by
  cases arg with
  | number x =>
      rw [argToJson]
      exact Json.sound_ofBinary64 x
  | uniform x =>
      rw [argToJson]
      exact .object (List.forall_mem_singleton.mpr (Json.sound_ofBinary64 x))
  | texture name =>
      rw [argToJson]
      exact .object (List.forall_mem_singleton.mpr (.string name))
  | chain inner => exact hnested inner rfl

theorem sound_toJson (o : Outline) : o.toJson.Sound := by
  induction o using nestedInduction with
  | step o ih =>
      have hops : Json.Sound (.array (o.ops.map opToJson)) := by
        refine .array (List.forall_mem_map.mpr fun op hop => .object ?_)
        simp only [List.forall_mem_cons]
        refine ⟨.string op.op, .array (List.forall_mem_map.mpr fun arg harg => ?_), nofun⟩
        refine sound_argToJson fun inner hinner => ?_
        subst hinner
        exact ih op hop inner harg
      rw [toJson_eq]
      refine .object (List.forall_mem_cons.mpr ⟨hops, ?_⟩)
      exact Json.forall_mem_optionalMember .string "getter" o.getter

theorem fits_toJson_of_args {o : Outline} {levels : Nat}
    (hargs : ∀ op ∈ o.ops, ∀ arg ∈ op.args, (argToJson arg).fits levels) :
    o.toJson.fits (levels + 4) := by
  have hops : (Json.array (o.ops.map opToJson)).fits (levels + 3) := by
    refine Json.fits_array.mpr (List.forall_mem_map.mpr fun op hop => Json.fits_object.mpr ?_)
    simp only [List.forall_mem_cons]
    refine ⟨rfl, Json.fits_array.mpr (List.forall_mem_map.mpr fun arg harg => ?_), nofun⟩
    exact hargs op hop arg harg
  rw [toJson_eq]
  refine Json.fits_object.mpr (List.forall_mem_cons.mpr ⟨hops, ?_⟩)
  exact Json.forall_mem_optionalMember (P := fun json => json.fits (levels + 3)) (fun _ => rfl)
    "getter" o.getter

/-! Where the ops and arguments of an outline stand in what it was read from. -/

theorem exists_op {json : Json} {o : Outline} (ho : ofJson? json = some o) {op : Op}
    (hop : op ∈ o.ops) : ∃ items getter item,
      json.record? ["ops", "getter"] = some [some (.array items), getter] ∧ item ∈ items ∧
        opOfJson? item = some op := by
  obtain ⟨ops, getter, hfields, hops, -⟩ := ofJson?_eq_some.mp ho
  obtain ⟨value, rfl, hvalue⟩ := Option.bind_eq_some_iff.mp hops
  have hlist : Json.withDefault? [] (Json.list? opOfJson?) (some value) = some o.ops := hvalue
  obtain ⟨items, item, hitems, hitem, hread⟩ := Json.exists_item hlist hop
  exact ⟨items, getter, item, hitems ▸ hfields, hitem, hread⟩

theorem exists_arg {json : Json} {op : Op} (hop : opOfJson? json = some op) {arg : Arg}
    (harg : arg ∈ op.args) : ∃ name items item,
      json.record? ["op", "args"] = some [name, some (.array items)] ∧ item ∈ items ∧
        argOfJson? item = some arg := by
  obtain ⟨name, args, hfields, -, hargs⟩ := opOfJson?_eq_some.mp hop
  obtain ⟨items, item, rfl, hitem, hread⟩ := Json.exists_item hargs harg
  exact ⟨name, items, item, hfields, hitem, hread⟩

theorem finite_of_ofJson? {json : Json} (hjson : json.Sound) {o : Outline}
    (ho : ofJson? json = some o) : o.Finite := by
  induction o using nestedInduction generalizing json with
  | step o ih =>
      refine finite_iff.mpr fun op hop arg harg => ?_
      obtain ⟨ops, getter, opJson, hfields, hopJson, hop'⟩ := exists_op ho hop
      obtain ⟨name, args, argJson, hopFields, hargJson, harg'⟩ := exists_arg hop' harg
      have hopSound := hjson.item hfields (by simp) hopJson
      have hargSound := hopSound.item hopFields (by simp) hargJson
      cases readFrom_of_argOfJson? harg' with
      | number hjson =>
          subst hjson
          exact hargSound.isFinite_of_number? rfl
      | uniform hjson hmember hx =>
          subst hjson
          cases hargSound with
          | object hmembers => exact (hmembers _ hmember).isFinite_of_number? hx
      | texture => trivial
      | chain hinner => exact ih op hop _ harg hargSound hinner

/-! A document that fits stays within its levels when it is written again. A chain in an argument
is four levels below the chain around it. -/

theorem fits_argToJson {arg : Arg} {levels : Nat}
    (hnested : ∀ inner, arg = .chain inner → (toJson inner).fits (levels + 1)) :
    (argToJson arg).fits (levels + 1) := by
  cases arg with
  | number x =>
      rw [argToJson]
      exact Json.fits_ofBinary64 x _
  | uniform x =>
      rw [argToJson, Json.fits_object]
      exact List.forall_mem_singleton.mpr (Json.fits_ofBinary64 x levels)
  | texture name =>
      rw [argToJson, Json.fits_object]
      exact List.forall_mem_singleton.mpr rfl
  | chain inner => exact hnested inner rfl

theorem fits_op {json : Json} {levels : Nat} (hfits : json.fits levels) {o : Outline}
    (ho : ofJson? json = some o) {op : Op} (hop : op ∈ o.ops) :
    ∃ inner item, levels = inner + 2 ∧ item.fits inner ∧ opOfJson? item = some op := by
  obtain ⟨items, getter, item, hfields, hitem, hread⟩ := exists_op ho hop
  obtain ⟨below, rfl, hbelow⟩ := Json.fits_field hfits hfields
  obtain ⟨inner, rfl, hinner⟩ := Json.exists_of_fits_array (hbelow (.array items) (by simp))
  exact ⟨inner, item, rfl, hinner item hitem, hread⟩

theorem fits_arg {json : Json} {levels : Nat} (hfits : json.fits levels) {op : Op}
    (hop : opOfJson? json = some op) {arg : Arg} (harg : arg ∈ op.args) :
    ∃ inner item, levels = inner + 2 ∧ item.fits inner ∧ argOfJson? item = some arg := by
  obtain ⟨name, items, item, hfields, hitem, hread⟩ := exists_arg hop harg
  obtain ⟨below, rfl, hbelow⟩ := Json.fits_field hfits hfields
  obtain ⟨inner, rfl, hinner⟩ := Json.exists_of_fits_array (hbelow (.array items) (by simp))
  exact ⟨inner, item, rfl, hinner item hitem, hread⟩

theorem fits_toJson {json : Json} {count : Nat} (hfits : json.fits (4 * count + 2)) {o : Outline}
    (ho : ofJson? json = some o) : o.toJson.fits (4 * count + 2) := by
  induction o using nestedInduction generalizing json count with
  | step o ih =>
      cases hops : o.ops with
      | nil =>
          rw [toJson_eq, hops, Json.fits_object, List.forall_mem_cons]
          refine ⟨Json.fits_array.mpr nofun, ?_⟩
          exact Json.forall_mem_optionalMember (P := fun json => json.fits (4 * count + 1))
            (fun _ => rfl) "getter" o.getter
      | cons first rest =>
          -- There is a level for the first op, and hence also for its arguments.
          have hmem : first ∈ o.ops := by simp [hops]
          obtain ⟨inner, item, hlevels, hitem, hfirst⟩ := fits_op hfits ho hmem
          obtain ⟨_, _, hfields, -⟩ := opOfJson?_eq_some.mp hfirst
          obtain ⟨_, rfl, -⟩ := Json.fits_field hitem hfields
          obtain ⟨count, rfl⟩ : ∃ fewer, count = fewer + 1 := ⟨count - 1, by omega⟩
          have hargs : ∀ op ∈ o.ops, ∀ arg ∈ op.args, (argToJson arg).fits (4 * count + 1 + 1) := by
            intro op hop arg harg
            obtain ⟨_, opJson, hopLevels, hopFits, hopRead⟩ := fits_op hfits ho hop
            obtain ⟨below, argJson, rfl, hargFits, hargRead⟩ := fits_arg hopFits hopRead harg
            obtain rfl : below = 4 * count + 2 := by omega
            refine fits_argToJson fun d hd => ?_
            subst hd
            cases readFrom_of_argOfJson? hargRead with
            | chain hd => exact ih op hop d harg hargFits hd
          exact fits_toJson_of_args hargs

/-! The levels left for the arguments. -/

theorem argumentsFit_of_fits {above : Nat} {json : Json}
    (hfits : json.fits (Json.maxLevels - above)) : argumentsFit above json := by
  unfold argumentsFit
  split
  · rename_i ops getter hfields
    obtain ⟨below, hbelow, hfieldsFit⟩ := Json.fits_field hfits hfields
    obtain ⟨inner, rfl, hops⟩ := Json.exists_of_fits_array (hfieldsFit (.array ops) (by simp))
    rw [List.all_eq_true]
    intro op hop
    unfold opArgumentsFit
    split
    · rename_i name args hopFields
      obtain ⟨_, rfl, hargsFit⟩ := Json.fits_field (hops op hop) hopFields
      obtain ⟨_, rfl, hargs⟩ := Json.exists_of_fits_array (hargsFit (.array args) (by simp))
      rw [hbelow]
      exact Json.allFit_iff.mpr hargs
    · rfl
  · rfl

theorem exists_of_argumentsFit {above : Nat} {json : Json} (hfit : argumentsFit above json)
    {o : Outline} (ho : ofJson? json = some o) {op : Op} (hop : op ∈ o.ops) {arg : Arg}
    (harg : arg ∈ op.args) :
    ∃ item, item.fits (Json.maxLevels - above - 4) ∧ argOfJson? item = some arg := by
  obtain ⟨ops, getter, opJson, hfields, hopJson, hop'⟩ := exists_op ho hop
  obtain ⟨name, args, item, hopFields, hitem, harg'⟩ := exists_arg hop' harg
  simp only [argumentsFit, hfields, List.all_eq_true] at hfit
  have hopFit := hfit opJson hopJson
  simp only [opArgumentsFit, hopFields] at hopFit
  exact ⟨item, Json.allFit_iff.mp hopFit item hitem, harg'⟩

end Outline

end ShaderChain
