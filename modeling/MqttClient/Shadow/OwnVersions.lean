import MqttClient.Shadow.Disciplines
import MqttClient.Shadow.Recognition
import MqttClient.Shadow.Members
import MqttClient.Shadow.Versions

/-! # The versions that the documents carry

The version of a document is a member of its topmost object. The layer takes the first string
`"version"` that has a number behind it, on whatever level that is. Where this is the member, the
versions of the deltas that are dispatched increase.
-/

namespace MqttClient.Shadow

open Effect Program

/-! ## The version of a document -/

/-- The first of the members with the name of the version that is a version. -/
def JsonMembers.HasVersion (members : JsonMembers) (v : UInt32) : Prop :=
  ∃ i value, members.memberAt i = some (shadowVersionString, value) ∧
    versionMeaning value = some v ∧ ∀ j < i, ∀ value',
      members.memberAt j = some (shadowVersionString, value') → versionMeaning value' = none

def CarriesVersion (document : List UInt8) (v : UInt32) : Prop :=
  ∃ members : JsonMembers, members.IsDocument document ∧ members.HasVersion v

/-- If the document carries a version, the first string `"version"` with a number behind it is
the key of a member that is one. -/
def LeadsWithVersion (document : List UInt8) : Prop :=
  ∀ members : JsonMembers, members.IsDocument document → ∀ v, members.HasVersion v →
    ∃ i value, nameWith shadowVersionString startsNumber 0 members.nodes = some i ∧
      members.memberAt i = some (shadowVersionString, value) ∧ IsVersion value

section Members

variable {members : JsonMembers} {s : List UInt8} {json : Document} {tokens found : JsonTokens}
  {i count : Nat} {value : JsonValue} {v : UInt32}

/-- A member that the lookup comes upon first is the first that is a version. -/
theorem JsonMembers.HasVersion.meaning_eq (h : members.HasVersion v)
    (hname : nameWith shadowVersionString startsNumber 0 members.nodes = some i)
    (hmember : members.memberAt i = some (shadowVersionString, value)) (hvalue : IsVersion value) :
    versionMeaning value = some v := by
  obtain ⟨first, own, hown, hmeans, hearlier⟩ := h
  obtain ⟨-, -, hleast⟩ := of_nameWith hname
  obtain ⟨hkey, hnode⟩ := JsonMembers.getElem?_of_memberAt hown
  have hnumber : startsNumber own.node = true :=
    startsNumber_of_versionMeaning (by rw [hmeans]; rfl)
  have hle : i ≤ first := by simpa using hleast first own.node hkey hnode hnumber
  rcases Nat.lt_or_eq_of_le hle with hlt | rfl
  · rw [IsVersion, hearlier i hlt value hmember] at hvalue
    cases hvalue
  · rw [hmember] at hown
    obtain rfl : value = own := (Prod.mk.inj (Option.some.inj hown)).2
    exact hmeans

/-- Where a member is what is come upon first, it is what `extractVersionNumber` finds. -/
theorem extractVersionNumber_of_memberAt (hdoc : json.Holds s)
    (hmarks : TokensMark s (JsonValue.object members).nodes found)
    (hname : nameWith shadowVersionString startsNumber 0 members.nodes = some i)
    (hmember : members.memberAt i = some (shadowVersionString, value)) (hvalue : IsVersion value) :
    extractVersionNumber json found (members.nodes.length + 1) = versionMeaning value := by
  have hsearched := searched_of_tokensMark hdoc (show 0 ∉ shadowVersionString by decide) hmarks
    fun _ _ hmark => isSome_parsedVersion hdoc hmark
  cases hsearched with
  | found m v hm hread hlookup =>
      obtain rfl : i = m := Option.some.inj (hname.symm.trans hm)
      have hmark := hmarks.member (JsonMembers.getElem?_of_memberAt hmember).2
      rw [(versionMeaning_iff hdoc hmark hread).mpr hvalue]
      exact hlookup
  | missing hnone => rw [hnone] at hname; cases hname
  | beyond hnone => rw [hnone] at hname; cases hname

/-- The tokens found in a document are those of its nodes. -/
theorem tokensMark_of_isJsonValidAndParse (hdocument : members.IsDocument s) (hdoc : json.Holds s)
    (hparse : isJsonValidAndParse json tokens = (some count, found)) :
    count = members.nodes.length + 1 ∧ TokensMark s (JsonValue.object members).nodes found := by
  have htext : json.text 0 = s := by rw [hdoc.text_eq (Nat.zero_le _), List.drop_zero]
  have hnodes : (JsonValue.object members).nodes.length = members.nodes.length + 1 := by
    rw [JsonValue.nodes, List.length_cons]
  have hok : (jsmnParse s tokens).1 = .ok count := by
    unfold isJsonValidAndParse at hparse
    rw [htext] at hparse
    split at hparse
    next => cases hparse
    next r toks heq =>
        split at hparse
        next => cases hparse
        next => cases hparse; exact congrArg Prod.fst heq
  -- there is room for as many tokens as the document has, since no text has two lists of tokens
  obtain ⟨hroom, toks, hyields, hlength, -⟩ := exists_yields_of_jsmnParse hok
  obtain ⟨n, htoks, hall⟩ : ∃ n, toks.length ≤ n ∧ (JsonValue.object members).nodes.length ≤ n :=
    ⟨max _ _, Nat.le_max_left _ _, Nat.le_max_right _ _⟩
  have hok' : (jsmnParse s (List.replicate n .blank)).1 = .ok toks.length :=
    (hyields.jsmnParse (by rwa [List.length_replicate])).1
  have hroom' : (JsonValue.object members).nodes.length ≤ (List.replicate n JsmnTok.blank).length :=
    by rwa [List.length_replicate]
  obtain ⟨all, hparse', -⟩ := jsmnParse_of_isDocument hdocument hroom'
  rw [hparse'] at hok'
  have hcount : (JsonValue.object members).nodes.length = count :=
    (Except.ok.inj hok').trans hlength
  obtain ⟨found', hparse', hmarks⟩ :=
    isJsonValidAndParse_of_isDocument hdocument hdoc (hcount ▸ hroom)
  rw [hparse] at hparse'
  cases hparse'
  exact ⟨hnodes, hmarks⟩

end Members

/-! ## Dispatched with the version that is carried -/

/-- A delta that leads with its version has been dispatched with it. -/
def Event.IsFaithful (e : Event) : Prop :=
  ∀ version document, e = .dispatched version document → LeadsWithVersion document →
    ∀ v, CarriesVersion document v → version = some v

/-- What the step records is faithful. -/
def World.RecordsFaithfully (s t : World) : Prop :=
  ∀ e, t.trace = e :: s.trace → e.IsFaithful

theorem World.recordsFaithfully_of {s t : World}
    (h : ∀ version document, t.trace ≠ .dispatched version document :: s.trace) :
    s.RecordsFaithfully t := by
  rintro e htrace version document rfl
  exact absurd htrace (h version document)

theorem coversTables_recordsFaithfully : CoversTables World.RecordsFaithfully where
  refl := fun s => World.recordsFaithfully_of fun _ _ h => List.ne_cons_self h
  part := by
    intro part s t hpart hchange
    apply World.recordsFaithfully_of
    intro version document h
    cases part with
    | event e =>
        rw [hchange] at h
        obtain rfl : e = _ := (List.cons.inj h).1
        exact hpart
    | version => rw [hchange] at h; cases h
    | document | registry => rw [hchange.1] at h; exact List.ne_cons_self h
    | _ => rw [hchange] at h; exact List.ne_cons_self h
  awaited := fun _ _ _ _ _ _ _ => World.recordsFaithfully_of fun _ _ h => by cases h
  request := fun _ _ _ => World.recordsFaithfully_of fun _ _ h => by cases h

/-- All runs, and that what their steps record is faithful. -/
abbrev faithfulDiscipline : Discipline World Answer :=
  alone (fun _ _ => True) (fun _ _ _ => True) (fun _ _ => True) World.RecordsFaithfully

instance : faithfulDiscipline.Sequential := ⟨fun _ _ => trivial, fun _ _ => Iff.rfl⟩

theorem admitsVersions_faithful : AdmitsVersions faithfulDiscipline where
  response := by
    intro s t m tokenCount _ _ _ _
    apply World.recordsFaithfully_of
    intro version document h
    unfold World.withResponseVersion at h
    split at h
    next => exact List.ne_cons_self h
    next => cases h
  delta := by
    rintro s t m tokenCount - hlength hcount rfl
    rintro e htrace version document rfl hleads v ⟨members, hdocument, hversion⟩
    unfold World.withDeltaVersion at htrace
    split at htrace
    next => exact absurd htrace List.ne_cons_self
    next =>
        cases htrace
        -- the tokens are those of the document, which has been received just before
        have hdoc := World.holds_withPayload s hlength
        obtain ⟨rfl, hmarks⟩ :=
          tokensMark_of_isJsonValidAndParse hdocument hdoc (Prod.ext hcount rfl)
        obtain ⟨i, value, hname, hmember, hvalue⟩ := hleads members hdocument v hversion
        exact (extractVersionNumber_of_memberAt hdoc hmarks hname hmember hvalue).trans
          (hversion.meaning_eq hname hmember hvalue)

/-- In every run each step records faithfully. -/
theorem recordsFaithfully_of_step {fuel : Nat} {w s t : World} {p p' : M Unit}
    (hsteps : Steps (fun _ _ _ => True) (app fuel, w) (p, s))
    (hstep : Step (fun _ _ _ => True) (p, s) (p', t)) : s.RecordsFaithfully t := by
  have happ : Obeys faithfulDiscipline (app fuel) :=
    coversTables_recordsFaithfully.obeys_app (fun _ _ => trivial) (fun _ => trivial)
      (fun _ _ h => h) admitsVersions_faithful fuel
  rcases guar_of_step (wp_steps (happ w trivial) hsteps) hstep with h | rfl
  · exact h
  · exact coversTables_recordsFaithfully.refl t

/-! ## Runs -/

/-- The event brings this version to the layer: that of a response, or the one that the delta
carries. -/
def Event.Brings : Event → UInt32 → Prop
  | .versionTaken v, u => u = v
  | .dispatched _ document, u => CarriesVersion document u
  | _, _ => False

/-- Where a delta is dispatched, the version that it carries exceeds those that came before. -/
def Event.Exceeds (later earlier : Event) : Prop :=
  ∀ version document, later = .dispatched version document → ∀ v, CarriesVersion document v →
    ∀ u, earlier.Brings u → u < v

/-- The step is undisturbed, and a delta that it dispatches leads with its version. -/
structure World.HeedsVersion (s t : World) : Prop where
  undisturbed : s.Undisturbed t
  leads : ∀ version document, t.trace = .dispatched version document :: s.trace →
    LeadsWithVersion document

/-- A delta that is dispatched is dispatched with the version that it carries. -/
def Event.HasOwnVersion (e : Event) : Prop :=
  ∀ version document, e = .dispatched version document → ∀ v, CarriesVersion document v →
    version = some v

theorem Event.HasOwnVersion.version? {e : Event} (h : e.HasOwnVersion) {u : UInt32}
    (hu : e.Brings u) : e.version? = some u := by
  cases e with
  | versionTaken v => exact congrArg some hu.symm
  | dispatched version document => exact h version document rfl u hu
  | _ => exact absurd hu id

/-- For such deltas the order of the versions found is that of the versions carried. -/
theorem Event.Follows.exceeds {later earlier : Event} (h : later.Follows earlier)
    (hlater : later.HasOwnVersion) (hearlier : earlier.HasOwnVersion) : later.Exceeds earlier := by
  rintro version document rfl v hcarries u hu
  have hfound : version = some v := hlater version document rfl v hcarries
  exact h v document (congrArg (Event.dispatched · document) hfound) u (hearlier.version? hu)

/-- The events since `w` are all so. -/
def World.SinceOwn (w t : World) : Prop :=
  ∃ new, t.trace = new ++ w.trace ∧ ∀ e ∈ new, e.HasOwnVersion

/-- A step whose delta, if it dispatches one, leads with its version. -/
theorem World.SinceOwn.step {w s t : World} (h : w.SinceOwn s) (hrecords : s.Records t)
    (hfaithful : s.RecordsFaithfully t) (hheeds : s.HeedsVersion t) : w.SinceOwn t := by
  obtain ⟨new, hnew, hown⟩ := h
  rcases hrecords with htrace | ⟨e, htrace⟩
  · exact ⟨new, htrace.trans hnew, hown⟩
  · refine ⟨e :: new, by rw [htrace, hnew, List.cons_append], List.forall_mem_cons.mpr ⟨?_, hown⟩⟩
    rintro version document rfl
    exact hfaithful _ htrace version document rfl (hheeds.leads version document htrace)

/-- In such a run every delta is dispatched with the version that it carries. -/
theorem sinceOwn_of_moves {fuel : Nat} {w₀ w t : World} {p p' : M Unit}
    (hstart : Steps (fun _ _ _ => True) (app fuel, w₀) (p, w))
    (hmoves : Moves (fun _ _ _ => True) World.HeedsVersion (p, w) (p', t)) : w.SinceOwn t := by
  generalize hc : (p', t) = c at hmoves
  induction hmoves generalizing p' t with
  | refl =>
      cases hc
      exact ⟨[], rfl, fun _ he => absurd he List.not_mem_nil⟩
  | @tail b c hfirst hmove ih =>
      cases hc
      obtain ⟨q, s⟩ := b
      have hs : w.SinceOwn s := ih rfl
      have hsteps := hstart.trans (Moves.steps hfirst)
      cases hmove with
      | act hheeds =>
          exact hs.step (records_of_step hsteps (.act _ _ _))
            (recordsFaithfully_of_step hsteps (.act _ _ _)) hheeds
      | ask => exact hs

/-- A document whose second token is its only string `"version"`. -/
theorem leadsWithVersion_of_jsoneq {document : List UInt8} (tokens : JsonTokens) (count : Nat)
    (hzero : 0 ∉ document)
    (hcount : (isJsonValidAndParse (.ofText document) tokens).1 = some count)
    (honly : ∀ i < count, jsoneq (.ofText document)
      (tokenAt (isJsonValidAndParse (.ofText document) tokens).2 i) shadowVersionString = true →
        i = 1) : LeadsWithVersion document := by
  intro members hdocument v hversion
  have hdoc := Document.holds_ofText hzero
  obtain ⟨rfl, hmarks⟩ := tokensMark_of_isJsonValidAndParse hdocument hdoc (Prod.ext hcount rfl)
  have hfirst {i : Nat} (hname : members.nodes[i]? = some (.string shadowVersionString)) :
    i = 0 := by
    have hlt : i < members.nodes.length := (List.getElem?_eq_some_iff.mp hname).1
    have hzero' : 0 ∉ shadowVersionString := by decide
    have heq := jsoneq_of_marks hdoc (hmarks.member hname) hzero'
    rw [decide_eq_true rfl] at heq
    have hone := honly (i + 1) (Nat.succ_lt_succ hlt) heq
    omega
  obtain ⟨first, own, hown, hmeans, -⟩ := hversion
  obtain ⟨hkey, hnode⟩ := JsonMembers.getElem?_of_memberAt hown
  have hvalue : IsVersion own := by rw [IsVersion, hmeans]; rfl
  obtain ⟨i, hname⟩ := Option.ne_none_iff_exists'.mp
    (nameWith_ne_none hkey hnode (startsNumber_of_versionMeaning hvalue))
  obtain ⟨-, hat, -⟩ := of_nameWith hname
  rw [Nat.sub_zero] at hat
  obtain rfl : i = 0 := hfirst hat
  obtain rfl : first = 0 := hfirst hkey
  exact ⟨0, own, hname, hown, hvalue⟩

/-- The two of the three deltas that are dispatched. -/
def sampleDeltas : List (List UInt8) :=
  [ascii "\x7b\"version\":1,\"k\":1\x7d", ascii "\x7b\"version\":2,\"k\":3\x7d"]

theorem leadsWithVersion_sampleDeltas {document : List UInt8} (h : document ∈ sampleDeltas) :
    LeadsWithVersion document := by
  rw [sampleDeltas, List.mem_pair] at h
  rcases h with rfl | rfl
  · exact leadsWithVersion_of_jsoneq (List.replicate 5 .blank) 5 (by decide) (by decide +kernel)
      (by decide +kernel)
  · exact leadsWithVersion_of_jsoneq (List.replicate 5 .blank) 5 (by decide) (by decide +kernel)
      (by decide +kernel)

/-- The step is undisturbed, and what it dispatches is one of these deltas. -/
def World.dispatchesSample (s t : World) : Bool :=
  s.undisturbed t &&
    match t.trace with
    | .dispatched _ document :: _ => sampleDeltas.contains document
    | _ => true

theorem World.heedsVersion_of_dispatchesSample (s t : World) (h : s.dispatchesSample t = true) :
    s.HeedsVersion t := by
  obtain ⟨hundisturbed, htrace⟩ := Bool.and_eq_true_iff.mp h
  refine ⟨World.undisturbed_of_eq_true s t hundisturbed, fun version document heq => ?_⟩
  rw [heq] at htrace
  exact leadsWithVersion_sampleDeltas (List.contains_iff_mem.mp htrace)

theorem movesTo_dispatchesSample :
    threeDeltas.movesTo (fun _ _ _ => true) World.dispatchesSample 5 2000 = true := by
  decide +kernel

/-- A delta with this version, in whose state the name of the version stands before this
number. -/
def nestedDelta (inner outer : UInt8) : JsonMembers :=
  .cons (ascii "state") (.object (.cons shadowVersionString (.primitive [inner])
    (.cons (ascii "k") (.primitive [49]) .nil)))
    (.cons shadowVersionString (.primitive [outer]) .nil)

def nestedDeltaText (inner outer : UInt8) : List UInt8 :=
  ascii "\x7b\"state\":\x7b\"version\":" ++ inner :: ascii ",\"k\":1\x7d,\"version\":" ++
    outer :: ascii "\x7d"

/-- Two such deltas arrive. -/
def nestedDeltas : Script where
  traffic := [.done .success, .done .success,
    .packet (messagePacket (ascii "$aws/things/t/shadow/update/delta") (nestedDeltaText 55 51)),
    .packet (messagePacket (ascii "$aws/things/t/shadow/update/delta") (nestedDeltaText 56 50))]
  calls := [some (connectAs "t"), some (registerKey "k" (some 0)), some (.yield 0)]
  expired := []

theorem carriesVersion_nestedDelta {inner outer : UInt8} {v : UInt32}
    (hinner : scanPrimitive [inner] = .ok 1) (hinner' : inner ≠ 123 ∧ inner ≠ 91 ∧ inner ≠ 34)
    (houter : scanPrimitive [outer] = .ok 1) (houter' : outer ≠ 123 ∧ outer ≠ 91 ∧ outer ≠ 34)
    (hv : versionMeaning (.primitive [outer]) = some v) :
    CarriesVersion (nestedDeltaText inner outer) v := by
  have hkey : IsStringText (ascii "k") := rfl
  have hstate : IsStringText (ascii "state") := rfl
  have hversion := spells_digit outer houter houter' isStringText_version spells_nil
  have hk := spells_digit 49 rfl (by decide) hkey spells_nil
  have hnested := spells_digit inner hinner hinner' isStringText_version hk
  have hdocument : (nestedDelta inner outer).IsDocument (nestedDeltaText inner outer) :=
    JsonMembers.isDocument_of_spells
      (spells_cons [] (List.forall_mem_nil _) hstate (spells_object hnested) hversion) rfl
  refine ⟨_, hdocument, 6, _, rfl, hv, ?_⟩
  -- in front of it stand the key of the state and the nodes of its value
  intro j hj value hmember
  have hnodes : (JsonValue.object (.cons shadowVersionString (.primitive [inner])
      (.cons (ascii "k") (.primitive [49]) .nil))).nodes.length = 5 := rfl
  unfold nestedDelta at hmember
  rw [JsonMembers.memberAt, hnodes] at hmember
  split at hmember
  next =>
    have hkeys : ascii "state" = shadowVersionString := congrArg Prod.fst (Option.some.inj hmember)
    exact absurd hkeys (by decide)
  next hpos =>
    rw [if_pos (Nat.le_of_lt_succ hj)] at hmember
    cases hmember

def Event.dispatchedDocument? : Event → Option (List UInt8)
  | .dispatched _ document => some document
  | _ => none

theorem Event.eq_of_dispatchedDocument? {e : Event} {document : List UInt8}
    (h : e.dispatchedDocument? = some document) : ∃ version, e = .dispatched version document := by
  cases e with
  | dispatched version _ => exact ⟨version, congrArg _ (Option.some.inj h)⟩
  | _ => cases h

/-- The versions that the dispatched deltas of an ordered trace carry are ordered. -/
theorem pairwise_dispatchedDocument {trace : List Event} (h : trace.Pairwise Event.Exceeds) :
    (trace.filterMap Event.dispatchedDocument?).Pairwise fun later earlier =>
      ∀ v, CarriesVersion later v → ∀ u, CarriesVersion earlier u → u < v := by
  apply h.filterMap
  intro later earlier hexceeds document hdocument document' hdocument' v hv u hu
  obtain ⟨version, rfl⟩ := Event.eq_of_dispatchedDocument? hdocument
  obtain ⟨version', rfl⟩ := Event.eq_of_dispatchedDocument? hdocument'
  exact hexceeds version document rfl v hv u hu

end MqttClient.Shadow
