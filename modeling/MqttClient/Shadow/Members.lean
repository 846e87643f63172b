import MqttClient.Client.TopicFilters
import MqttClient.Shadow.Outlines

/-! # Members of a document and the lookups

The lookups go through the tokens of a document one behind the other, whatever level they
are on, and take the token behind a name for the member's value. What they are meant to find
is a member of the document's topmost object.
-/

open Text

namespace MqttClient.Shadow

/-! ## The lookups -/

section Lookups

variable {α : Type} (json : Document) (tokens : JsonTokens) (tokenCount : Nat) (name : List UInt8)
  (read : JsmnTok → Option α)

/-- The loop of both lookups: what `read` makes of the token behind a name. -/
def lookup : Option α :=
  findToken tokenCount fun i =>
    if jsoneq json (tokenAt tokens i) name then read (tokenAt tokens (i + 1)) else none

/-- The name behind which the loop has found something. -/
def takenName : Option Nat :=
  findToken tokenCount fun i =>
    if jsoneq json (tokenAt tokens i) name then (read (tokenAt tokens (i + 1))).map fun _ => i
    else none

/-- Of these tokens, and the ones behind them, those at which the loop looks. -/
def tokensRead : List Nat → List Nat
  | [] => []
  | i :: rest =>
      i :: if jsoneq json (tokenAt tokens i) name then
        (i + 1) :: if (read (tokenAt tokens (i + 1))).isSome then [] else tokensRead rest
      else tokensRead rest

end Lookups

/-- What `extractClientToken` copies of a token. -/
def copiedToken (json : Document) (tok : JsmnTok) : Option (List UInt8) :=
  some (json.textUpTo tok.start ((tok.stop - tok.start) % 256).toNat)

def parsedVersion (json : Document) (tok : JsmnTok) : Option UInt32 :=
  (parseUnsignedInteger32Value json tok).toOption

theorem extractClientToken_eq_lookup {json : Document} {tokens found : JsonTokens}
    {tokenCount : Nat} (h : isJsonValidAndParse json tokens = (some tokenCount, found)) :
    extractClientToken json tokens =
      (lookup json found tokenCount shadowClientTokenString (copiedToken json), found) := by
  unfold extractClientToken
  rw [h]
  rfl

/-! ## Members -/

/-- The member whose key is the node at this position among those of the members. -/
def JsonMembers.memberAt : JsonMembers → Nat → Option (List UInt8 × JsonValue)
  | .nil, _ => none
  | .cons key value rest, i =>
      if i = 0 then some (key, value)
      else if i ≤ value.nodes.length then none
      else rest.memberAt (i - (value.nodes.length + 1))

/-- Counted from `i`, the position of the first string that is the name and has a node
behind it that is a `hit`. -/
def nameWith (name : List UInt8) (hit : JsonNode → Bool) : Nat → List JsonNode → Option Nat
  | _, [] => none
  | i, node :: rest =>
      if node = .string name ∧
        rest.head?.any hit = true then some i else nameWith name hit (i + 1) rest

/-- The first such string is the key of a member whose value is `ok`; if there is none, the
name is not what the document ends with. -/
def JsonMembers.Leads (members : JsonMembers) (name : List UInt8) (hit : JsonNode → Bool)
    (ok : JsonValue → Prop) : Prop :=
  match nameWith name hit 0 members.nodes with
  | none => members.nodes.getLast? ≠ some (.string name)
  | some i => ∃ value, members.memberAt i = some (name, value) ∧ ok value

/-- The result of the lookup of a name is what the value of a member means, and the lookup
has seen tokens of the document only. A string that is not a member's key is not taken for one. -/
structure FindsMember {α : Type} (members : JsonMembers) (json : Document) (tokens : JsonTokens)
    (name : List UInt8) (read : JsmnTok → Option α) (means : JsonValue → Option α)
    (result : Option α) : Prop where
  found : ∀ a, result = some a →
    ∃ i value, takenName json tokens (members.nodes.length + 1) name read = some (i + 1) ∧
      members.memberAt i = some (name, value) ∧ means value = some a
  missing : result = none →
    ∀ i value, members.memberAt i = some (name, value) → means value = none
  within : ∀ i ∈ tokensRead json tokens name read (List.range' 1 members.nodes.length),
    i < members.nodes.length + 1

theorem JsonValue.head?_nodes (v : JsonValue) : v.nodes.head? = some v.node := by
  cases v with
  | string | primitive | array | object =>
      rw [JsonValue.nodes, JsonValue.node]
      rfl

/-- The key of a member, and behind it the node of its value. -/
theorem JsonMembers.getElem?_of_memberAt {name : List UInt8} {value : JsonValue} :
    ∀ {members : JsonMembers} {i : Nat}, members.memberAt i = some (name, value) →
      members.nodes[i]? = some (.string name) ∧ members.nodes[i + 1]? = some value.node
  | .nil, i, h => by cases h
  | .cons key v rest, i, h => by
      rw [JsonMembers.memberAt] at h
      rw [JsonMembers.nodes]
      split_ifs at h with hzero hle
      · obtain ⟨rfl, rfl⟩ := Prod.mk.inj (Option.some.inj h)
        subst hzero
        refine ⟨rfl, ?_⟩
        rw [List.getElem?_cons_succ, ← List.head?_eq_getElem?, List.head?_append,
          JsonValue.head?_nodes]
        rfl
      · obtain ⟨j, rfl⟩ : ∃ j, i = v.nodes.length + 1 + j :=
          ⟨i - (v.nodes.length + 1), by omega⟩
        rw [Nat.add_sub_cancel_left] at h
        obtain ⟨hkey, hvalue⟩ := JsonMembers.getElem?_of_memberAt h
        have hskip :
          ∀ m, (JsonNode.string key :: (v.nodes ++ rest.nodes))[v.nodes.length + 1 + m]? =
            rest.nodes[m]? := by
          intro m
          rw [show v.nodes.length + 1 + m = v.nodes.length + m + 1 by omega,
            List.getElem?_cons_succ, List.getElem?_append_right (by omega),
            Nat.add_sub_cancel_left]
        exact ⟨(hskip j).trans hkey, (hskip (j + 1)).trans hvalue⟩

/-! ## The name of a node -/

namespace Document.Holds

variable {doc : Document} {js : List UInt8} {off n : Nat}

theorem textUpTo_eq_take (h : doc.Holds js) (hoff : off ≤ js.length) (n : Nat) :
    doc.textUpTo off n = (js.drop off).take n := by
  induction n generalizing off with
  | zero => rfl
  | succ n ih =>
      rcases Nat.lt_or_eq_of_le hoff with hlt | rfl
      · have hbyte := h.bytes off hlt
        have hne : doc.bytes off ≠ 0 := by
          intro hzero
          exact h.nonzero (hzero ▸ hbyte ▸ List.getElem_mem hlt)
        rw [textUpTo, if_neg hne, ih hlt, hbyte, ← List.getElem_cons_drop hlt, List.take_succ_cons]
      · rw [textUpTo, if_pos h.terminator, List.drop_length, List.take_nil]

theorem load_eq_take (h : doc.Holds js) (hle : off + n ≤ js.length) :
    doc.bytes.load off n = (js.drop off).take n := by
  apply List.ext_getElem
  · rw [Memory.length_load, List.length_take, List.length_drop]
    omega
  · intro i hi _
    rw [Memory.length_load] at hi
    rw [List.getElem_take, List.getElem_drop, ← h.bytes (off + i) (by omega)]
    simp [Memory.load]

end Document.Holds

theorem strncmpEq_self (a : List UInt8) (n : Nat) : strncmpEq a a n = true := by
  induction n generalizing a with
  | zero => rfl
  | succ n ih =>
      rw [strncmpEq, if_neg (fun h => h rfl)]
      split
      · rfl
      · exact ih _

/-- A token equals a name just when it marks a string that is the name. -/
theorem jsoneq_of_marks {json : Document} {s name : List UInt8} {node : JsonNode} {tok : JsmnTok}
    (hdoc : json.Holds s) (hmarks : node.Marks s tok) (hname : 0 ∉ name) :
    jsoneq json tok name = decide (node = .string name) := by
  unfold jsoneq
  cases node with
  | string chars =>
      obtain ⟨htype, hstop, rest, hdrop⟩ := hmarks
      have hlength : tok.start + (chars.length + 1) ≤ s.length := by
        have hlen := congrArg List.length hdrop
        rw [List.length_drop, List.length_append, List.length_cons] at hlen
        omega
      by_cases hsame : name.length = chars.length
      · have hload : json.bytes.load tok.start name.length = chars := by
          rw [hdoc.load_eq_take (by omega), hdrop, hsame, List.take_left]
        rw [hload, hstop, hsame]
        by_cases heq : chars = name
        · subst heq
          simp [htype, strncmpEq_self]
        · have hne : strncmpEq chars name chars.length = false := by
            rw [Bool.eq_false_iff]
            -- texts of one length without a zero byte compare as they are
            intro hcmp
            have hnul : ∀ c ∈ name.take chars.length, c ≠ 0 := by
              intro c hc hzero
              exact hname (hzero ▸ List.mem_of_mem_take hc)
            have htake := eq_take_of_strncmpEq hcmp rfl (by omega) hnul
            rw [List.take_of_length_le (by omega)] at htake
            exact heq htake
          simp [hne, heq]
      · have hne : ¬ (name.length : Int) = tok.stop - tok.start := by omega
        have hchars : ¬ JsonNode.string chars = .string name := by
          intro heq
          exact hsame (congrArg List.length (JsonNode.string.inj heq)).symm
        simp [hne, hchars]
  | primitive chars => simp [hmarks.1]
  | array => simp [hmarks.1]
  | object => simp [hmarks.1]

/-! ## What a lookup comes upon -/

section Search

variable {α : Type} {json : Document} {tokens : JsonTokens} {s name : List UInt8}
  {read : JsmnTok → Option α} {hit : JsonNode → Bool} {nodes : List JsonNode} {i : Nat}

theorem nameWith_cons_of_ne {node : JsonNode} (h : node ≠ .string name) :
    nameWith name hit i (node :: nodes) = nameWith name hit (i + 1) nodes := by
  rw [nameWith, if_neg fun hand => h hand.1]

/-- A name with a hit behind it is come upon, if no earlier one is. -/
theorem nameWith_ne_none {m : Nat} {node : JsonNode} (hname : nodes[m]? = some (.string name))
    (hnode : nodes[m + 1]? = some node) (hhit : hit node = true) :
    nameWith name hit i nodes ≠ none := by
  induction nodes generalizing i m with
  | nil => cases hname
  | cons first rest ih =>
      rw [nameWith]
      split
      next => exact Option.some_ne_none i
      next hmiss =>
          cases m with
          | zero =>
              rw [List.getElem?_cons_zero, Option.some.injEq] at hname
              rw [List.getElem?_cons_succ, ← List.head?_eq_getElem?] at hnode
              exact absurd ⟨hname, by rw [hnode]; exact hhit⟩ hmiss
          | succ m => exact ih hname hnode

/-- What is come upon is the name, and no later than any name with a hit behind it. -/
theorem of_nameWith {k : Nat} (h : nameWith name hit k nodes = some i) :
    k ≤ i ∧ nodes[i - k]? = some (.string name) ∧ ∀ (m : Nat) (node : JsonNode),
      nodes[m]? = some (.string name) → nodes[m + 1]? = some node →
        hit node = true → i ≤ k + m := by
  induction nodes generalizing k with
  | nil => cases h
  | cons first rest ih =>
      rw [nameWith] at h
      split at h
      next hfirst =>
          obtain rfl : k = i := Option.some.inj h
          rw [Nat.sub_self]
          exact ⟨Nat.le_refl _, congrArg some hfirst.1, fun m _ _ _ _ => Nat.le_add_right _ m⟩
      next hmiss =>
          obtain ⟨hle, hname, hleast⟩ := ih h
          refine ⟨by omega, ?_, ?_⟩
          · rw [show i - k = i - (k + 1) + 1 by omega]
            exact hname
          · intro m node hm hnode hhit
            cases m with
            | zero =>
                rw [List.getElem?_cons_zero, Option.some.injEq] at hm
                rw [List.getElem?_cons_succ, ← List.head?_eq_getElem?] at hnode
                exact absurd ⟨hm, by rw [hnode]; exact hhit⟩ hmiss
            | succ m =>
                have hlater := hleast m node hm hnode hhit
                omega

/-- How the loop ends on the tokens of these nodes, the first of which has the position `i`. -/
inductive Searched (json : Document) (tokens : JsonTokens) (name : List UInt8)
    (read : JsmnTok → Option α) (hit : JsonNode → Bool) (i : Nat) (nodes : List JsonNode) :
    Prop where
  | found (m : Nat) (a : α) (hname : nameWith name hit i nodes = some m)
      (hread : read (tokenAt tokens (m + 2)) = some a)
      (hlookup : ((List.range' (i + 1) nodes.length).findSome? fun j =>
        if jsoneq json (tokenAt tokens j) name then read (tokenAt tokens (j + 1)) else none) =
          some a)
      (htaken : ((List.range' (i + 1) nodes.length).findSome? fun j =>
        if jsoneq json (tokenAt tokens j) name then (read (tokenAt tokens (j + 1))).map fun _ => j
        else none) = some (m + 1))
      (hwithin : ∀ j ∈ tokensRead json tokens name read (List.range' (i + 1) nodes.length),
        j < i + 1 + nodes.length)
  | missing (hname : nameWith name hit i nodes = none)
      (hlast : nodes.getLast? ≠ some (.string name))
      (hlookup : ((List.range' (i + 1) nodes.length).findSome? fun j =>
        if jsoneq json (tokenAt tokens j) name then read (tokenAt tokens (j + 1)) else none) = none)
      (hwithin : ∀ j ∈ tokensRead json tokens name read (List.range' (i + 1) nodes.length),
        j < i + 1 + nodes.length)
  | beyond (hname : nameWith name hit i nodes = none)
      (hlast : nodes.getLast? = some (.string name))
      (hread : i + 1 + nodes.length ∈
        tokensRead json tokens name read (List.range' (i + 1) nodes.length))

/-- A node at which the loop does not end. -/
theorem Searched.cons {node : JsonNode} {next : JsonNode} {rest : List JsonNode}
    (hread : jsoneq json (tokenAt tokens (i + 1)) name = true →
      read (tokenAt tokens (i + 2)) = none)
    (hname : nameWith name hit i (node :: next :: rest) = nameWith name hit (i + 1) (next :: rest))
    (h : Searched json tokens name read hit (i + 1) (next :: rest)) :
    Searched json tokens name read hit i (node :: next :: rest) := by
  have hlast : (node :: next :: rest).getLast? = (next :: rest).getLast? :=
    List.getLast?_cons_cons
  have hlength : i + 1 + (node :: next :: rest).length = i + 1 + 1 + (next :: rest).length := by
    simp only [List.length_cons]
    omega
  have hrange : List.range' (i + 1) (node :: next :: rest).length =
      (i + 1) :: List.range' (i + 1 + 1) (next :: rest).length := List.range'_succ
  have hskip {β : Type} (f : α → β) :
      (if jsoneq json (tokenAt tokens (i + 1)) name then (read (tokenAt tokens (i + 1 + 1))).map f
        else none) = none := by
    split
    next heq => rw [hread heq]; rfl
    next => rfl
  have hskip' : (if jsoneq json (tokenAt tokens (i + 1)) name then read (tokenAt tokens (i + 1 + 1))
      else none) = none := by
    have := hskip id
    rwa [Option.map_id, id] at this
  -- the loop looks at this token and, if it is the name, at the next one
  have hreads : ∀ j, j ∈ tokensRead json tokens name read
      (List.range' (i + 1) (node :: next :: rest).length) →
        j ≤ i + 2 ∨ j ∈ tokensRead json tokens name read
          (List.range' (i + 1 + 1) (next :: rest).length) := by
    intro j hj
    rw [hrange, tokensRead] at hj
    rcases List.mem_cons.mp hj with rfl | hj
    · exact .inl (by omega)
    · split at hj
      next heq =>
          rw [hread heq] at hj
          rcases List.mem_cons.mp hj with rfl | hj
          · exact .inl le_rfl
          · exact .inr hj
      next => exact .inr hj
  have hkeeps : ∀ j, j ∈ tokensRead json tokens name read
      (List.range' (i + 1 + 1) (next :: rest).length) →
        j ∈ tokensRead json tokens name read
          (List.range' (i + 1) (node :: next :: rest).length) := by
    intro j hj
    rw [hrange, tokensRead]
    apply List.mem_cons_of_mem
    split
    next heq =>
        rw [hread heq]
        exact List.mem_cons_of_mem _ hj
    next => exact hj
  have hshort : i + 2 < i + 1 + (node :: next :: rest).length := by
    simp only [List.length_cons]
    omega
  have hwithin (h : ∀ j ∈ tokensRead json tokens name read
      (List.range' (i + 1 + 1) (next :: rest).length), j < i + 1 + 1 + (next :: rest).length) :
      ∀ j ∈ tokensRead json tokens name read (List.range' (i + 1) (node :: next :: rest).length),
        j < i + 1 + (node :: next :: rest).length := by
    intro j hj
    rcases hreads j hj with hle | hmem
    · omega
    · rw [hlength]
      exact h j hmem
  cases h with
  | found m a hm hread' hlookup htaken hin =>
      refine .found m a (hname.trans hm) hread' ?_ ?_ (hwithin hin)
      · rw [hrange, List.findSome?_cons, hskip']
        exact hlookup
      · rw [hrange, List.findSome?_cons, hskip]
        exact htaken
  | missing hm hne hlookup hin =>
      refine .missing (hname.trans hm) (hlast ▸ hne) ?_ (hwithin hin)
      rw [hrange, List.findSome?_cons, hskip']
      exact hlookup
  | beyond hm heq hmem =>
      refine .beyond (hname.trans hm) (hlast.trans heq) ?_
      rw [hlength]
      exact hkeeps _ hmem

/-- The loop ends with the first name that has a hit behind it; it looks beyond the last node
just when that is the name and there is none. -/
theorem searched (hdoc : json.Holds s) (hzero : 0 ∉ name)
    (hhit : ∀ (node : JsonNode) (tok : JsmnTok), node.Marks s tok → (read tok).isSome = hit node)
    (hmarks : ∀ j (node : JsonNode), nodes[j]? = some node →
      node.Marks s (tokenAt tokens (i + 1 + j))) :
    Searched json tokens name read hit i nodes := by
  induction nodes generalizing i with
  | nil => exact .missing rfl nofun rfl nofun
  | cons node rest ih =>
      have heq : jsoneq json (tokenAt tokens (i + 1)) name = decide (node = .string name) :=
        jsoneq_of_marks hdoc (hmarks 0 node rfl) hzero
      cases rest with
      | nil =>
          -- a name at the very end has nothing behind it, and the loop looks there
          have hrange : List.range' (i + 1) [node].length = [i + 1] := rfl
          by_cases hnode : node = .string name
          · refine .beyond ?_ (congrArg some hnode) ?_
            · rw [nameWith, if_neg]
              · rfl
              · exact fun hand => Bool.false_ne_true hand.2
            · rw [hrange, tokensRead, heq, if_pos (decide_eq_true hnode)]
              exact List.mem_cons_of_mem _ List.mem_cons_self
          · have hfalse : decide (node = .string name) = false := decide_eq_false hnode
            refine .missing (nameWith_cons_of_ne hnode) ?_ ?_ ?_
            · exact fun hlast => hnode (Option.some.inj hlast)
            · rw [hrange, List.findSome?_cons, heq, hfalse]
              rfl
            · rw [hrange, tokensRead, heq, hfalse]
              intro j hj
              rw [List.mem_singleton.mp hj, List.length_singleton]
              omega
      | cons next rest =>
          have hnext : (read (tokenAt tokens (i + 2))).isSome = hit next :=
            hhit next _ (hmarks 1 next rfl)
          have hrest : Searched json tokens name read hit (i + 1) (next :: rest) := by
            apply ih
            intro j node' hnode'
            have hmark := hmarks (j + 1) node' hnode'
            rwa [show i + 1 + (j + 1) = i + 1 + 1 + j by omega] at hmark
          by_cases hnode : node = .string name
          · cases hresult : read (tokenAt tokens (i + 2)) with
            | none =>
                -- what is behind the name is no hit, so the search goes on
                rw [hresult] at hnext
                apply hrest.cons fun _ => hresult
                rw [nameWith, if_neg]
                intro hand
                rw [List.head?_cons, Option.any_some, ← hnext] at hand
                exact Bool.false_ne_true hand.2
            | some a =>
                rw [hresult] at hnext
                have htrue : jsoneq json (tokenAt tokens (i + 1)) name = true := by
                  rw [heq]
                  exact decide_eq_true hnode
                have hrange : List.range' (i + 1) (node :: next :: rest).length =
                    (i + 1) :: List.range' (i + 1 + 1) (next :: rest).length := List.range'_succ
                refine .found i a ?_ hresult ?_ ?_ ?_
                · rw [nameWith, if_pos
                    ⟨hnode, by rw [List.head?_cons, Option.any_some, ← hnext]; rfl⟩]
                · rw [hrange, List.findSome?_cons, if_pos htrue, hresult]
                · rw [hrange, List.findSome?_cons, if_pos htrue, hresult]
                  rfl
                · rw [hrange, tokensRead, if_pos htrue, hresult, if_pos Option.isSome_some]
                  intro j hj
                  simp only [List.mem_cons, List.not_mem_nil, or_false] at hj
                  simp only [List.length_cons]
                  omega
          · apply hrest.cons _ (nameWith_cons_of_ne hnode)
            intro htrue
            rw [heq] at htrue
            exact absurd (of_decide_eq_true htrue) hnode

variable {members : JsonMembers} {means : JsonValue → Option α} {ok : JsonValue → Prop}

theorem TokensMark.member (h : TokensMark s (JsonValue.object members).nodes tokens) {j : Nat}
    {node : JsonNode} (hnode : members.nodes[j]? = some node) :
    node.Marks s (tokenAt tokens (j + 1)) := by
  apply h (j + 1) node
  rw [JsonValue.nodes]
  exact hnode

/-- How the lookup of a name ends. -/
theorem searched_of_tokensMark (hdoc : json.Holds s) (hzero : 0 ∉ name)
    (hmarks : TokensMark s (JsonValue.object members).nodes tokens)
    (hhit : ∀ (node : JsonNode) (tok : JsmnTok), node.Marks s tok → (read tok).isSome = hit node) :
    Searched json tokens name read hit 0 members.nodes := by
  apply searched hdoc hzero hhit
  intro j node hnode
  rw [Nat.zero_add, Nat.add_comm]
  exact hmarks.member hnode

/-- A lookup finds a member just when it is a member's key that it comes upon first, and the
value is one of those for which what is made of its token is what it means. -/
theorem findsMember_iff_leads (hdoc : json.Holds s) (hzero : 0 ∉ name)
    (hmarks : TokensMark s (JsonValue.object members).nodes tokens)
    (hhit : ∀ (node : JsonNode) (tok : JsmnTok), node.Marks s tok → (read tok).isSome = hit node)
    (hok : ∀ (value : JsonValue) (tok : JsmnTok) (a : α), value.node.Marks s tok →
      read tok = some a → (means value = some a ↔ ok value))
    (hmeans : ∀ value, (means value).isSome → hit value.node = true) :
    FindsMember members json tokens name read means
        (lookup json tokens (members.nodes.length + 1) name read) ↔ members.Leads name hit ok := by
  have hloop {β : Type} (f : Nat → Option β) : findToken (members.nodes.length + 1) f =
      (List.range' 1 members.nodes.length).findSome? f := rfl
  rw [JsonMembers.Leads]
  cases searched_of_tokensMark hdoc hzero hmarks hhit with
  -- by where the search has ended
  | found m a hname hread hlookup htaken hwithin =>
      rw [hname]
      have hresult : lookup json tokens (members.nodes.length + 1) name read = some a :=
        (hloop _).trans hlookup
      have hmember {value : JsonValue} (hat : members.memberAt m = some (name, value)) :
          means value = some a ↔ ok value := by
        apply hok value _ a _ hread
        exact hmarks.member (JsonMembers.getElem?_of_memberAt hat).2
      constructor
      · intro h
        obtain ⟨i, value, hi, hat, hvalue⟩ := h.found a hresult
        have him : i = m := by
          have := hi.symm.trans ((hloop _).trans htaken)
          simpa using this
        subst him
        exact ⟨value, hat, (hmember hat).mp hvalue⟩
      · rintro ⟨value, hat, hvalue⟩
        refine ⟨?_, ?_, ?_⟩
        · intro b hb
          have hab : a = b := Option.some.inj (hresult.symm.trans hb)
          subst hab
          exact ⟨m, value, (hloop _).trans htaken, hat, (hmember hat).mpr hvalue⟩
        · intro hnone
          rw [hresult] at hnone
          cases hnone
        · intro j hj
          have hlt := hwithin j hj
          omega
  | missing hname hlast hlookup hwithin =>
      rw [hname]
      refine iff_of_true ⟨?_, ?_, ?_⟩ hlast
      · intro a ha
        rw [lookup, hloop, hlookup] at ha
        cases ha
      · intro _ i value hat
        rw [Option.eq_none_iff_forall_not_mem]
        intro a ha
        obtain ⟨hkey, hvalue⟩ := JsonMembers.getElem?_of_memberAt hat
        exact nameWith_ne_none hkey hvalue (hmeans value (by rw [ha]; rfl)) hname
      · intro j hj
        have hlt := hwithin j hj
        omega
  | beyond hname hlast hread =>
      rw [hname]
      apply iff_of_false _ (not_not.mpr hlast)
      intro h
      have hlt := h.within _ hread
      omega

end Search

/-! ## The two names -/

/-- What a client token means: the string. -/
def tokenMeaning : JsonValue → Option (List UInt8)
  | .string chars => some chars
  | _ => none

/-- A string whose length fits into 8 bits. -/
def IsShortString (value : JsonValue) : Prop := ∃ chars, value = .string chars ∧ chars.length ≤ 255

/-- What a version means: the number, if it is an unsigned integer of 32 bits. -/
def versionMeaning : JsonValue → Option UInt32
  | .primitive (45 :: _) => none
  | .primitive chars =>
      (integerLiteral chars).bind fun n =>
        if IntegerType.uint32.Holds n then some (UInt32.ofInt n) else none
  | _ => none

/-- A number such as `sscanf` reads it without a sign. -/
def startsNumber : JsonNode → Bool
  | .primitive chars => startsUnsigned chars
  | _ => false

/-- An unsigned integer of 32 bits. -/
def IsVersion (value : JsonValue) : Prop := (versionMeaning value).isSome = true

section Values

variable {json : Document} {s : List UInt8} {value : JsonValue} {tok : JsmnTok}

/-- What is copied of a string token is the string, as far as 8 bits can count it. -/
theorem copiedToken_string {chars : List UInt8} (hdoc : json.Holds s)
    (h : (JsonNode.string chars).Marks s tok) :
    copiedToken json tok = some (chars.take (chars.length % 256)) := by
  obtain ⟨-, hstop, rest, hdrop⟩ := h
  have hstart : tok.start ≤ s.length := by
    by_contra hlt
    rw [List.drop_of_length_le (by omega)] at hdrop
    exact List.append_ne_nil_of_right_ne_nil chars (List.cons_ne_nil _ _) hdrop.symm
  have hlength : ((tok.stop - tok.start) % 256).toNat = chars.length % 256 := by omega
  rw [copiedToken, hlength, hdoc.textUpTo_eq_take hstart, hdrop,
    List.take_append_of_le_length (Nat.mod_le _ _)]

theorem tokenMeaning_iff (hdoc : json.Holds s) {a : List UInt8} (h : value.node.Marks s tok)
    (hread : copiedToken json tok = some a) :
      tokenMeaning value = some a ↔ IsShortString value := by
  cases value with
  | string chars =>
      rw [copiedToken_string hdoc h, Option.some.injEq] at hread
      subst hread
      rw [tokenMeaning, Option.some.injEq, eq_comm, List.take_eq_self_iff]
      constructor
      · intro hle
        exact ⟨chars, rfl, by omega⟩
      · rintro ⟨chars', hchars, hle⟩
        cases hchars
        omega
  | primitive | array | object => exact iff_of_false nofun nofun

theorem isPrimitive_of_marks {chars : List UInt8} (hdoc : json.Holds s)
    (h : (JsonNode.primitive chars).Marks s tok) : IsPrimitive json tok chars := by
  obtain ⟨htype, hstop, htext, rest, hdrop, hrest⟩ := h
  refine ⟨htype, hstop, htext.nonempty, rest, ?_, scanPrimitive_append htext.scanned hrest⟩
  have hstart : tok.start ≤ s.length := by
    by_contra hlt
    rw [List.drop_of_length_le (by omega)] at hdrop
    exact List.append_ne_nil_of_left_ne_nil htext.nonempty rest hdrop.symm
  rw [hdoc.text_eq hstart, hdrop]

theorem notBlank_of_isPrimitive {chars : List UInt8} (h : IsPrimitive json tok chars) :
    NotBlank chars := by
  obtain ⟨rest, -, hscan⟩ := h.scanned
  cases chars with
  | nil => exact absurd rfl h.nonempty
  | cons c js => exact ⟨c, js, rfl, (of_scanPrimitive hscan).1 c List.mem_cons_self⟩

/-- What is parsed of a primitive is what the conversion makes of its text. -/
theorem parsedVersion_primitive {chars : List UInt8} (h : IsPrimitive json tok chars) :
    parsedVersion json tok = (IntegerType.uint32.scan chars).map UInt32.ofInt := by
  have hparse : IntegerType.uint32.parse json tok = _ := IntegerType.parse_eq h
  unfold parsedVersion
  rw [IntegerType.parse] at hparse
  cases hresult : parseUnsignedInteger32Value json tok with
  | error rc =>
      rw [hresult] at hparse
      cases hscan : IntegerType.uint32.scan chars with
      | none => rfl
      | some n => rw [hscan] at hparse; cases hparse
  | ok v =>
      rw [hresult] at hparse
      cases hscan : IntegerType.uint32.scan chars with
      | none => rw [hscan] at hparse; cases hparse
      | some n =>
          rw [hscan] at hparse
          have hnat : (v.toNat : Int) = (UInt32.ofInt n).toNat := Except.ok.inj hparse
          exact congrArg some (UInt32.toNat.inj (by omega))

theorem isSome_parsedVersion {node : JsonNode} (hdoc : json.Holds s) (h : node.Marks s tok) :
    (parsedVersion json tok).isSome = startsNumber node := by
  have hother (htype : tok.type ≠ .primitive) : parsedVersion json tok = none := by
    unfold parsedVersion parseUnsignedInteger32Value parseUnsignedValue
    rw [if_pos htype]
    rfl
  cases node with
  | primitive chars =>
      have hprimitive := isPrimitive_of_marks hdoc h
      rw [parsedVersion_primitive hprimitive, Option.isSome_map,
        IntegerType.isSome_scan .uint32 (notBlank_of_isPrimitive hprimitive)]
      rfl
  | string | array | object =>
      rw [hother (by rw [h.1]; decide)]
      rfl

/-- The literal of a version. -/
theorem literal_of_versionMeaning {v : UInt32} (h : versionMeaning value = some v) :
    ∃ chars n, value = .primitive chars ∧ chars.head? ≠ some 45 ∧ integerLiteral chars = some n ∧
      IntegerType.uint32.Holds n ∧ v = UInt32.ofInt n := by
  unfold versionMeaning at h
  split at h
  next => cases h
  next chars hminus =>
      obtain ⟨n, hliteral, hholds⟩ := Option.bind_eq_some_iff.mp h
      split at hholds
      next hn =>
          refine ⟨chars, n, rfl, ?_, hliteral, hn, (Option.some.inj hholds).symm⟩
          intro hhead
          obtain ⟨js, rfl⟩ := List.head?_eq_some_iff.mp hhead
          exact hminus js rfl
      next => cases hholds
  next => cases h

theorem startsNumber_of_versionMeaning (h : (versionMeaning value).isSome = true) :
    startsNumber value.node = true := by
  obtain ⟨v, hv⟩ := Option.isSome_iff_exists.mp h
  obtain ⟨chars, n, rfl, hminus, hliteral, hn, -⟩ := literal_of_versionMeaning hv
  obtain ⟨m, hread, hsign⟩ := of_integerLiteral hliteral
  rcases hsign with ⟨js, rfl, -, -⟩ | ⟨-, hscan, -⟩
  · exact absurd rfl hminus
  · rw [hscan] at hread
    obtain ⟨⟨c, js, rfl, hdigit⟩, -⟩ := of_readDigits hread
    change startsUnsigned (c :: js) = true
    unfold startsUnsigned
    split
    next heq => exact absurd (congrArg List.head? heq) hminus
    next =>
        rw [hscan]
        exact hdigit

theorem versionMeaning_iff (hdoc : json.Holds s) {v : UInt32} (h : value.node.Marks s tok)
    (hread : parsedVersion json tok = some v) :
      versionMeaning value = some v ↔ IsVersion value := by
  constructor
  · intro hv
    rw [IsVersion, hv]
    rfl
  · intro hversion
    obtain ⟨v', hv'⟩ := Option.isSome_iff_exists.mp hversion
    obtain ⟨chars, n, rfl, hminus, hliteral, hn, rfl⟩ := literal_of_versionMeaning hv'
    have hprimitive := isPrimitive_of_marks hdoc h
    have hscan := IntegerType.scan_of_literal (notBlank_of_isPrimitive hprimitive)
      hliteral hn (startsNumber_of_versionMeaning hversion)
    rw [parsedVersion_primitive hprimitive, hscan] at hread
    rw [hv', ← hread]
    rfl

end Values

/-! ## Both lookups -/

section Documents

variable {members : JsonMembers} {s : List UInt8} {json : Document} {tokens found : JsonTokens}

theorem findsClientToken_iff (hdoc : json.Holds s)
    (hmarks : TokensMark s (JsonValue.object members).nodes found) :
    FindsMember members json found shadowClientTokenString (copiedToken json) tokenMeaning
        (lookup json found (members.nodes.length + 1) shadowClientTokenString (copiedToken json)) ↔
      members.Leads shadowClientTokenString (fun _ => true) IsShortString :=
  findsMember_iff_leads hdoc (by decide) hmarks (fun _ _ _ => rfl)
    (fun _ _ _ hmark hread => tokenMeaning_iff hdoc hmark hread) fun _ _ => rfl

theorem findsVersion_iff (hdoc : json.Holds s)
    (hmarks : TokensMark s (JsonValue.object members).nodes found) :
    FindsMember members json found shadowVersionString (parsedVersion json) versionMeaning
        (extractVersionNumber json found (members.nodes.length + 1)) ↔
      members.Leads shadowVersionString startsNumber IsVersion :=
  findsMember_iff_leads hdoc (by decide) hmarks (fun _ _ hmark => isSome_parsedVersion hdoc hmark)
    (fun _ _ _ hmark hread => versionMeaning_iff hdoc hmark hread)
    fun _ => startsNumber_of_versionMeaning

/-- The document is tokenized, and both lookups find the members they are for. -/
def FindsBoth (members : JsonMembers) (json : Document) (tokens : JsonTokens) : Prop :=
  ∃ found, isJsonValidAndParse json tokens = (some (members.nodes.length + 1), found) ∧
    FindsMember members json found shadowClientTokenString (copiedToken json) tokenMeaning
      (extractClientToken json tokens).1 ∧
    FindsMember members json found shadowVersionString (parsedVersion json) versionMeaning
      (extractVersionNumber json found (members.nodes.length + 1))

/-- Both lookups find what they are for just when the first `clientToken` of the document and
the first `version` that has a number behind it are members that mean something. -/
theorem findsBoth_iff (hdocument : members.IsDocument s) (hdoc : json.Holds s)
    (htokens : tokens.length = maxJsonTokenExpected)
    (hfits : (JsonValue.object members).nodes.length ≤ maxJsonTokenExpected) :
    FindsBoth members json tokens ↔
      members.Leads shadowClientTokenString (fun _ => true) IsShortString ∧
        members.Leads shadowVersionString startsNumber IsVersion := by
  obtain ⟨found, hparse, hmarks⟩ :=
    isJsonValidAndParse_of_isDocument hdocument hdoc (htokens ▸ hfits)
  have hcount : (JsonValue.object members).nodes.length = members.nodes.length + 1 := by
    rw [JsonValue.nodes, List.length_cons]
  rw [hcount] at hparse
  have htoken : (extractClientToken json tokens).1 =
      lookup json found (members.nodes.length + 1) shadowClientTokenString (copiedToken json) := by
    rw [extractClientToken_eq_lookup hparse]
  rw [← findsClientToken_iff hdoc hmarks, ← findsVersion_iff hdoc hmarks, FindsBoth, htoken]
  constructor
  · rintro ⟨found', hparse', h⟩
    rw [hparse] at hparse'
    cases hparse'
    exact h
  · intro h
    exact ⟨found, hparse, h⟩

end Documents

/-! ## Two documents -/

theorem isStringText_version : IsStringText shadowVersionString := rfl

/-- A member whose value is a digit, without blanks. -/
theorem spells_digit {key body : List UInt8} {rest : JsonMembers} (d : UInt8)
    (hscan : scanPrimitive [d] = .ok 1) (hd : d ≠ 123 ∧ d ≠ 91 ∧ d ≠ 34) (hkey : IsStringText key)
    (h : rest.Spells body) :
    (JsonMembers.cons key (.primitive [d]) rest).Spells
      ([] ++ (quoted key ++ ([58] ++ ([d] ++ (rest.comma ++ body))))) :=
  spells_cons [] nofun hkey
    (spells_primitive ⟨List.cons_ne_nil _ _, hscan, fun _ hc => Option.some.inj hc ▸ hd⟩) h

/-- A response with a version and a token. -/
def plainMembers : JsonMembers :=
  .cons shadowVersionString (.primitive [53])
    (.cons shadowClientTokenString (.string [116]) .nil)

def plainText : List UInt8 := ascii "\x7b\"version\":5,\"clientToken\":\"t\"\x7d"

theorem isDocument_plainMembers : plainMembers.IsDocument plainText := by
  have hname : IsStringText shadowClientTokenString := rfl
  have hvalue : IsStringText [116] := rfl
  have htoken := spells_cons [] nofun hname (spells_string hvalue) spells_nil
  have hversion := spells_digit 53 rfl (by decide) isStringText_version htoken
  exact JsonMembers.isDocument_of_spells hversion (by decide)

theorem findsBoth_plainMembers :
    FindsBoth plainMembers (.ofText plainText) (List.replicate maxJsonTokenExpected .blank) :=
  (findsBoth_iff isDocument_plainMembers (Document.holds_ofText (by decide)) rfl (by decide)).mpr
    ⟨⟨_, rfl, _, rfl, by decide⟩, ⟨_, rfl, rfl⟩⟩

/-- A document whose state has a member with the name of the version. -/
def nestedMembers : JsonMembers :=
  .cons (ascii "state") (.object (.cons shadowVersionString (.primitive [55]) .nil))
    (.cons shadowVersionString (.primitive [51]) .nil)

def nestedText : List UInt8 := ascii "\x7b\"state\":\x7b\"version\":7\x7d,\"version\":3\x7d"

theorem isDocument_nestedMembers : nestedMembers.IsDocument nestedText := by
  have hversion := spells_digit 51 rfl (by decide) isStringText_version spells_nil
  have hnested := spells_digit 55 rfl (by decide) isStringText_version spells_nil
  have hname : IsStringText (ascii "state") := rfl
  have hstate := spells_cons [] nofun hname (spells_object hnested) hversion
  exact JsonMembers.isDocument_of_spells hstate (by decide)

/-- The version in the state is taken for that of the document. -/
theorem not_findsBoth_nestedMembers :
    ¬ ∀ (members : JsonMembers) (s : List UInt8) (json : Document) (tokens : JsonTokens),
      members.IsDocument s → json.Holds s → tokens.length = maxJsonTokenExpected →
        (JsonValue.object members).nodes.length ≤ maxJsonTokenExpected →
          FindsBoth members json tokens := by
  intro h
  have hdoc : (Document.ofText nestedText).Holds nestedText := Document.holds_ofText (by decide)
  obtain ⟨found, hparse, -, hversion⟩ := h nestedMembers nestedText (.ofText nestedText)
    (List.replicate maxJsonTokenExpected .blank) isDocument_nestedMembers hdoc rfl (by decide)
  have hroom : (JsonValue.object nestedMembers).nodes.length ≤
      (List.replicate maxJsonTokenExpected JsmnTok.blank).length := by decide
  obtain ⟨found', hparse', hmarks⟩ :=
    isJsonValidAndParse_of_isDocument isDocument_nestedMembers hdoc hroom
  have hsame : found = found' := congrArg Prod.snd (hparse.symm.trans hparse')
  obtain ⟨value, hmember, -⟩ := (findsVersion_iff hdoc (hsame ▸ hmarks)).mp hversion
  cases hmember

end MqttClient.Shadow
