import ShaderChain.Json.Parser
import ShaderChain.Proofs.Number.Reading

/-! The numbers in what is read from a JSON text. -/

namespace ShaderChain.Json

/-- Numbers that a text can stand for. -/
def Number.Proper : Number → Prop
  | .natural n => n < 2 ^ 64
  | .real x => x.isFinite

theorem Number.Proper.isFinite {n : Number} (hn : n.Proper) : n.toBinary64.isFinite := by
  cases n with
  | natural n => exact Binary64.isFinite_ofNat hn
  | real x => exact hn

/-- Values of which all numbers are such. -/
inductive Sound : Json → Prop
  | null : Sound .null
  | bool (b : Bool) : Sound (.bool b)
  | number {n : Number} (hn : n.Proper) : Sound (.number n)
  | string (s : String) : Sound (.string s)
  | array {items : List Json} (hitems : ∀ item ∈ items, Sound item) : Sound (.array items)
  | object {members : List (String × Json)} (hmembers : ∀ member ∈ members, Sound member.2) :
      Sound (.object members)
  | unreadable : Sound .unreadable

namespace Token

def Sound (token : Token) : Prop :=
  ∀ n, token = .number (some n) → n.Proper

theorem proper_numberOf {negative : Bool} {whole fraction : List Char} {exponent : Option Int}
    {n : Number} (hn : numberOf negative whole fraction exponent = some n) : n.Proper := by
  simp only [numberOf] at hn
  split at hn
  · rename_i hnatural
    cases hn
    simp only [Nat.pow_eq, Bool.and_eq_true, decide_eq_true_eq] at hnatural
    exact hnatural.2
  · obtain ⟨x, hx, rfl⟩ := Option.map_eq_some_iff.mp hn
    exact Decimal.isFinite_of_toBinary64? hx

theorem sound_unsignedNumber? {negative : Bool} {cs rest : List Char} {token : Token}
    (hscan : unsignedNumber? negative cs = some (token, rest)) : token.Sound := by
  simp only [unsignedNumber?, bind, Option.bind_eq_some_iff] at hscan
  obtain ⟨⟨whole, _⟩, -, ⟨fraction, _⟩, -, ⟨exponent, _⟩, -, htoken⟩ := hscan
  cases htoken
  intro n hn
  exact proper_numberOf (Token.number.inj hn)

theorem sound_scan? {cs rest : List Char} {token : Token} (hscan : scan? cs = some (token, rest)) :
    token.Sound := by
  unfold scan? at hscan
  split at hscan
  case h_11 => exact sound_unsignedNumber? hscan
  case h_12 => exact sound_unsignedNumber? hscan
  case h_10 =>
    obtain ⟨_, -, htoken⟩ := Option.bind_eq_some_iff.mp hscan
    cases htoken
    exact nofun
  all_goals
    cases hscan
    exact nofun

theorem sound_tokensWithin {seen tokens : List Token} {fuel : Nat} {cs : List Char}
    (htokens : tokensWithin seen fuel cs = some tokens) (hseen : ∀ token ∈ seen, token.Sound) :
    ∀ token ∈ tokens, token.Sound := by
  induction fuel generalizing seen cs with
  | zero => cases htokens
  | succ fuel ih =>
      rw [tokensWithin] at htokens
      split at htokens
      · cases htokens
        simpa using hseen
      · split at htokens
        · rename_i token rest hscan
          apply ih htokens
          intro other hother
          rcases List.mem_cons.mp hother with rfl | hother
          · exact sound_scan? hscan
          · exact hseen other hother
        · cases htokens

end Token

namespace Reader

/-! What the reader has seen so far has such numbers only. -/

def SoundMembers (members : Option (List (String × Json))) : Prop :=
  ∀ ms, members = some ms → ∀ member ∈ ms, Json.Sound member.2

def SoundFrame : Frame → Prop
  | .array items => ∀ item ∈ items, Json.Sound item
  | .object members => SoundMembers members
  | .member members _ => SoundMembers members

def SoundGoal : Goal → Prop
  | .separator value => Json.Sound value
  | _ => True

structure Sound (reader : Reader) : Prop where
  goal : SoundGoal reader.goal
  frames : ∀ frame ∈ reader.frames, SoundFrame frame

theorem soundMembers_addMember {members : Option (List (String × Json))} {name : Option String}
    {value : Json} (hmembers : SoundMembers members) (hvalue : Json.Sound value) :
    SoundMembers (addMember members name value) := by
  intro ms hms
  simp only [addMember, bind, Option.bind_eq_some_iff] at hms
  obtain ⟨n, -, earlier, hearlier, hms⟩ := hms
  cases hms
  intro member hmember
  rcases List.mem_cons.mp hmember with rfl | hmember
  · exact hvalue
  · exact hmembers earlier hearlier member hmember

theorem sound_objectOf {members : Option (List (String × Json))} (hmembers : SoundMembers members) :
    Json.Sound (objectOf members) := by
  cases members with
  | none => exact .unreadable
  | some ms =>
      refine .object fun member hmember => ?_
      exact hmembers ms rfl member (List.mem_reverse.mp hmember)

theorem sound_beginValue {frames : List Frame} (hframes : ∀ frame ∈ frames, SoundFrame frame)
    {token : Token} (htoken : token.Sound) {next : Reader}
    (hnext : beginValue frames token = some next) : next.Sound := by
  unfold beginValue at hnext
  split at hnext
  all_goals cases hnext
  · exact ⟨trivial, List.forall_mem_cons.mpr ⟨nofun, hframes⟩⟩
  · refine ⟨trivial, List.forall_mem_cons.mpr ⟨?_, hframes⟩⟩
    intro ms hms
    cases hms
    exact nofun
  · exact ⟨.null, hframes⟩
  · exact ⟨.bool _, hframes⟩
  · exact ⟨.number (htoken _ rfl), hframes⟩
  · exact ⟨.string _, hframes⟩
  · exact ⟨.unreadable, hframes⟩
  · exact ⟨.unreadable, hframes⟩

theorem Sound.step {reader next : Reader} (hreader : reader.Sound) {token : Token}
    (htoken : token.Sound) (hnext : reader.step token = some next) : next.Sound := by
  obtain ⟨hgoal, hframes⟩ := hreader
  unfold Reader.step at hnext
  split at hnext
  case h_1 => exact sound_beginValue hframes htoken hnext
  case h_3 => exact sound_beginValue hframes htoken hnext
  all_goals cases hnext
  -- Only the frame that is being filled or closed matters.
  case h_7 => exact ⟨trivial, hframes⟩
  all_goals obtain ⟨hframe, hframes⟩ := List.forall_mem_cons.mp hframes
  · exact ⟨.array nofun, hframes⟩
  · exact ⟨.object nofun, hframes⟩
  · exact ⟨trivial, List.forall_mem_cons.mpr ⟨hframe, hframes⟩⟩
  · exact ⟨trivial, List.forall_mem_cons.mpr ⟨hframe, hframes⟩⟩
  · exact ⟨trivial, List.forall_mem_cons.mpr ⟨List.forall_mem_cons.mpr ⟨hgoal, hframe⟩, hframes⟩⟩
  · refine ⟨.array fun item hitem => ?_, hframes⟩
    rcases List.mem_cons.mp (List.mem_reverse.mp hitem) with rfl | hitem
    · exact hgoal
    · exact hframe item hitem
  · exact ⟨trivial, List.forall_mem_cons.mpr ⟨soundMembers_addMember hframe hgoal, hframes⟩⟩
  · exact ⟨sound_objectOf (soundMembers_addMember hframe hgoal), hframes⟩

theorem Sound.foldlM {reader last : Reader} (hreader : reader.Sound) {tokens : List Token}
    (htokens : ∀ token ∈ tokens, token.Sound)
    (hlast : tokens.foldlM Reader.step reader = some last) : last.Sound := by
  induction tokens generalizing reader with
  | nil =>
      cases hlast
      exact hreader
  | cons token rest ih =>
      obtain ⟨htoken, hrest⟩ := List.forall_mem_cons.mp htokens
      rw [List.foldlM_cons] at hlast
      obtain ⟨next, hnext, hlast⟩ := Option.bind_eq_some_iff.mp hlast
      exact ih (hreader.step htoken hnext) hrest hlast

end Reader

theorem sound_parse? {text : String} {json : Json} (hjson : parse? text = some json) :
    json.Sound := by
  obtain ⟨tokens, htokens, hvalue⟩ := Option.bind_eq_some_iff.mp hjson
  obtain ⟨last, hlast, hresult⟩ := Option.bind_eq_some_iff.mp hvalue
  have hstart : Reader.Sound .start := ⟨trivial, nofun⟩
  have hsound := hstart.foldlM (Token.sound_tokensWithin htokens nofun) hlast
  unfold Reader.result? at hresult
  split at hresult
  · cases hresult
    exact hsound.goal
  · cases hresult

end ShaderChain.Json
