import ExactCover.Codec.Fields
import ExactCover.Proofs.Json.Coded
import ExactCover.Proofs.Json.Skip

namespace ExactCover

namespace Json

variable {before bs rest : Bytes}

theorem nextName_brace (hbefore : Blank before) (first : Bool) (bs : Bytes) :
    nextName first (before ++ ascii '\x7d' :: bs) = .ok none := by
  rw [nextName, hbefore.skipSpace_cons (by decide)]
  rfl

theorem nextName_of_leads {first : Bool} {lead : Bytes} (hlead : Leads first lead)
    (hbefore : Blank before) (bs : Bytes) :
    nextName first (lead ++ (before ++ quote :: bs)) = .ok (some bs) := by
  have hquote := hbefore.skipSpace_cons (show isSpace quote = false by decide) bs
  cases hlead with
  | first =>
    have hne : quote ≠ ascii '\x7d' := by decide
    rw [List.nil_append, nextName, hquote]
    simp only [hne, if_false, if_true]
  | comma hafter =>
    have hne : ascii ',' ≠ ascii '\x7d' := by decide
    rw [List.append_assoc, List.singleton_append, nextName, hafter.skipSpace_cons (by decide)]
    simp only [hquote, hne, if_false, if_true, Bool.false_eq_true]

theorem readColon_colon (hbefore : Blank before) (bs : Bytes) :
    readColon (before ++ ascii ':' :: bs) = .ok bs := by
  rw [readColon, hbefore.skipSpace_cons (by decide)]
  rfl

/-- The next name is found behind what leads to it and read up to the white space behind it. -/
theorem RendersName.exists_next {name : String} (h : RendersName (codes name) bs) {first : Bool}
    {lead : Bytes} (hlead : Leads first lead) (rest : Bytes) :
    ∃ body after, Blank after ∧ nextName first (lead ++ (bs ++ rest)) = .ok (some body) ∧
      readString body = .ok (name, after ++ rest) := by
  obtain ⟨hbefore, htext, hafter⟩ := h
  refine ⟨_, _, hafter, ?_, htext.readString _⟩
  rw [List.append_assoc, List.cons_append, List.append_assoc, List.cons_append]
  exact nextName_of_leads hlead hbefore _

theorem rendersName_writeString (s : String) : RendersName (codes s) (writeString s) := by
  simpa [writeString] using RendersName.mk blank_nil (rendersText_escape s) blank_nil

/-- Every member takes up at least one byte. -/
theorem RendersMembers.length_le {members : List (List Nat × Value)}
    (h : RendersMembers members bs) : members.length ≤ bs.length := by
  induction members generalizing bs with
  | nil => exact Nat.zero_le _
  | cons m members ih =>
    cases h with
    | last =>
      simp only [List.length_cons, List.length_nil, List.length_append]
      omega
    | cons _ _ hrest =>
      have hle := ih hrest
      simp only [List.length_append, List.length_cons]
      omega

end Json

namespace Parts

open Json

variable {C R : Type} [Valued C] [Valued R]

/-- The fields of parts, in the order of writing. -/
def fields (parts : Parts C R) : List (String × Value) :=
  [("columns", Valued.value parts.columns), ("rows", Valued.value parts.rows),
    ("targets", Valued.value parts.targets), ("amounts", Valued.value parts.amounts)]

/-- The names of the fields, in the order in which they are written. -/
def fieldNames : List String := ["columns", "rows", "targets", "amounts"]

/-- The JSON values that stand for parts. A map has each field once, in any order; how many other
    members it has and what they hold does not matter. -/
inductive Form (parts : Parts C R) : Value → Prop where
  | sequence : Form parts (.array (parts.fields.map Prod.snd))
  | map (members : List (String × Value))
      (h : (members.filter fun m => m.1 ∈ fieldNames).Perm parts.fields) :
      Form parts (.object (members.map fun m => (codes m.1, m.2)))

section Pending

variable {α : Type} [Valued α] {name : String} {x : α}

/-- Whether a field is known or still to come: it is among the members not read yet exactly if it
    was not read before. -/
inductive Pending (name : String) (x : α) : Option α → List (String × Value) → Prop where
  | known {members : List (String × Value)} (h : ∀ m ∈ members, m.1 ≠ name) :
      Pending name x (some x) members
  | unknown {members : List (String × Value)}
      (h : members.filter (fun m => m.1 = name) = [(name, Valued.value x)]) :
      Pending name x none members

theorem Pending.eq_some {field : Option α} (h : Pending name x field []) : field = some x := by
  cases h with
  | known => rfl
  | unknown h => cases h

theorem Pending.here {field : Option α} {v : Value} {members : List (String × Value)}
    (h : Pending name x field ((name, v) :: members)) :
    field = none ∧ v = Valued.value x ∧ Pending name x (some x) members := by
  cases h with
  | known h => exact absurd rfl (h _ List.mem_cons_self)
  | unknown h =>
    simp only [decide_true, List.filter_cons_of_pos, List.cons.injEq, Prod.mk.injEq, true_and,
      List.filter_eq_nil_iff, decide_eq_true_eq] at h
    exact ⟨rfl, h.1, .known h.2⟩

theorem Pending.later {field : Option α} {m : String × Value} {members : List (String × Value)}
    (h : Pending name x field (m :: members)) (hne : m.1 ≠ name) :
    Pending name x field members := by
  cases h with
  | known h => exact .known fun m hm => h m (List.mem_cons_of_mem _ hm)
  | unknown h =>
    rw [List.filter_cons_of_neg (by simpa using hne)] at h
    exact .unknown h

end Pending

/-- A draft in front of members: what it lacks is among them. -/
structure Draft.Awaits (d : Draft C R) (parts : Parts C R) (members : List (String × Value)) :
    Prop where
  columns : Pending "columns" parts.columns d.columns members
  rows : Pending "rows" parts.rows d.rows members
  targets : Pending "targets" parts.targets d.targets members
  amounts : Pending "amounts" parts.amounts d.amounts members

variable {parts : Parts C R} {d : Draft C R} {members : List (String × Value)}

/-- Before the first member everything is among the members. -/
theorem awaits_all (h : (members.filter fun m => m.1 ∈ fieldNames).Perm parts.fields) :
    Draft.Awaits {} parts members := by
  have hfield {name : String} {v : Value} (hname : name ∈ fieldNames)
      (hv : parts.fields.filter (fun m => m.1 = name) = [(name, v)]) :
      members.filter (fun m => m.1 = name) = [(name, v)] := by
    have hperm := h.filter fun m => m.1 = name
    rw [hv, List.perm_singleton, List.filter_filter] at hperm
    refine Eq.trans (List.filter_congr fun m _ => ?_) hperm
    by_cases hm : m.1 = name
    · simp [hm, hname]
    · simp [hm]
  exact ⟨.unknown (hfield (by decide) (by simp [fields])),
    .unknown (hfield (by decide) (by simp [fields])),
    .unknown (hfield (by decide) (by simp [fields])),
    .unknown (hfield (by decide) (by simp [fields]))⟩

/-- Behind the last member the draft is complete. -/
theorem Draft.Awaits.complete (h : d.Awaits parts []) : d.complete = .ok parts := by
  simp only [Draft.complete, h.columns.eq_some, h.rows.eq_some, h.targets.eq_some,
    h.amounts.eq_some, Option.elim_some, bind, Except.bind, pure, Except.pure]

variable [Coded C] [Coded R] [Legible C] [Legible R] {bs rest : Bytes}

/-- The value of a field that is still to come is read. -/
theorem Pending.readField {α : Type} [Coded α] [Valued α] [Legible α] {name : String} {x : α}
    {field : Option α} {v : Value} (h : Pending name x field ((name, v) :: members))
    {before : Bytes} (hbefore : Blank before) (hbs : RendersPadded v bs) (hrest : Ends rest) :
    ∃ after, Blank after ∧ Pending name x (some x) members ∧
      readField name field (before ++ ascii ':' :: (bs ++ rest)) = .ok (some x, after ++ rest) := by
  obtain ⟨rfl, rfl, hknown⟩ := h.here
  obtain ⟨after, hafter, hread⟩ := hbs.read hrest
  refine ⟨after, hafter, hknown, ?_⟩
  simp only [Parts.readField, Option.isSome_none, Bool.false_eq_true, if_false,
    readColon_colon hbefore, hread, bind, Except.bind, pure, Except.pure]

/-- A member brings its field into the draft, or is passed over if it is none of the fields. -/
theorem Draft.Awaits.readMember {name : String} {v : Value}
    (h : d.Awaits parts ((name, v) :: members)) {before : Bytes} (hbefore : Blank before)
    (hbs : RendersPadded v bs) (hrest : Ends rest) :
    ∃ d' after, Blank after ∧ d'.Awaits parts members ∧
      readMember name d (before ++ ascii ':' :: (bs ++ rest)) = .ok (d', after ++ rest) := by
  by_cases hcolumns : name = "columns"
  · subst hcolumns
    obtain ⟨after, hafter, hknown, hread⟩ := h.columns.readField hbefore hbs hrest
    refine ⟨{ d with columns := some parts.columns }, after, hafter, ⟨hknown,
      h.rows.later (by simp), h.targets.later (by simp), h.amounts.later (by simp)⟩, ?_⟩
    simp [Parts.readMember, hread, bind, Except.bind, pure, Except.pure]
  by_cases hrows : name = "rows"
  · subst hrows
    obtain ⟨after, hafter, hknown, hread⟩ := h.rows.readField hbefore hbs hrest
    refine ⟨{ d with rows := some parts.rows }, after, hafter, ⟨h.columns.later (by simp), hknown,
      h.targets.later (by simp), h.amounts.later (by simp)⟩, ?_⟩
    simp [Parts.readMember, hread, bind, Except.bind, pure, Except.pure]
  by_cases htargets : name = "targets"
  · subst htargets
    obtain ⟨after, hafter, hknown, hread⟩ := h.targets.readField hbefore hbs hrest
    refine ⟨{ d with targets := some parts.targets }, after, hafter, ⟨h.columns.later (by simp),
      h.rows.later (by simp), hknown, h.amounts.later (by simp)⟩, ?_⟩
    simp [Parts.readMember, hread, bind, Except.bind, pure, Except.pure]
  by_cases hamounts : name = "amounts"
  · subst hamounts
    obtain ⟨after, hafter, hknown, hread⟩ := h.amounts.readField hbefore hbs hrest
    refine ⟨{ d with amounts := some parts.amounts }, after, hafter, ⟨h.columns.later (by simp),
      h.rows.later (by simp), h.targets.later (by simp), hknown⟩, ?_⟩
    simp [Parts.readMember, hread, bind, Except.bind, pure, Except.pure]
  · obtain ⟨after, hafter, hskip⟩ := hbs.skipValue hrest
    refine ⟨d, after, hafter, ⟨h.columns.later hcolumns, h.rows.later hrows,
      h.targets.later htargets, h.amounts.later hamounts⟩, ?_⟩
    simp only [Parts.readMember, hcolumns, hrows, htargets, hamounts, if_false,
      readColon_colon hbefore, hskip, bind, Except.bind, pure, Except.pure]

/-- One turn of the loop over members, from what leads to a member up to the white space behind
    it. -/
theorem Draft.Awaits.readMembers_step {name : String} {v : Value}
    (h : d.Awaits parts ((name, v) :: members)) {first : Bool} {lead label : Bytes}
    (hlead : Leads first lead) (hname : RendersName (codes name) label) (hbs : RendersPadded v bs)
    (hrest : Ends rest) (limit : Nat) :
    ∃ d' after, Blank after ∧ d'.Awaits parts members ∧
      readMembers (limit + 1) first d (lead ++ (label ++ ascii ':' :: (bs ++ rest))) =
        readMembers limit false d' (after ++ rest) := by
  obtain ⟨body, before, hbefore, hnext, hread⟩ :=
    hname.exists_next hlead (ascii ':' :: (bs ++ rest))
  obtain ⟨d', after, hafter, h', hmember⟩ := h.readMember hbefore hbs hrest
  refine ⟨d', after, hafter, h', ?_⟩
  rw [readMembers]
  simp only [hnext, hread, hmember, bind, Except.bind]

omit [Valued C] [Valued R] [Legible C] [Legible R] in
theorem readMembers_brace {after : Bytes} (hafter : Blank after) (limit : Nat) (first : Bool)
    (d : Draft C R) : readMembers (limit + 1) first d (after ++ ascii '\x7d' :: rest) =
      .ok (d, after ++ ascii '\x7d' :: rest) := by
  simp only [readMembers, nextName_brace hafter, bind, Except.bind, pure, Except.pure]

/-- The members up to the closing brace bring everything that the draft lacks. -/
theorem Draft.Awaits.readMembers (h : d.Awaits parts members)
    (hbs : RendersMembers (members.map fun m => (codes m.1, m.2)) bs) {limit : Nat}
    (hlimit : members.length < limit) {first : Bool} {lead : Bytes} (hlead : Leads first lead)
    (rest : Bytes) : ∃ d' after, Blank after ∧ d'.Awaits parts [] ∧
      readMembers limit first d (lead ++ (bs ++ ascii '\x7d' :: rest)) =
        .ok (d', after ++ ascii '\x7d' :: rest) := by
  induction members generalizing d bs limit first lead with
  | nil => cases hbs
  | cons m members ih =>
    obtain ⟨limit, rfl⟩ := Nat.exists_eq_succ_of_ne_zero (Nat.ne_zero_of_lt hlimit)
    have hlimit := Nat.lt_of_succ_lt_succ hlimit
    rw [List.map_cons] at hbs
    generalize hms : members.map (fun m => (codes m.1, m.2)) = ms at hbs
    -- Behind a member stands the brace, or a comma that leads to the next member.
    cases hbs with
    | last hname hv =>
      obtain rfl := List.map_eq_nil_iff.mp hms
      obtain ⟨limit, rfl⟩ := Nat.exists_eq_succ_of_ne_zero (Nat.ne_zero_of_lt hlimit)
      obtain ⟨d', after, hafter, h', hstep⟩ :=
        h.readMembers_step hlead hname hv (ends_brace rest) (limit + 1)
      refine ⟨d', after, hafter, h', ?_⟩
      rw [List.append_assoc, List.cons_append, hstep, readMembers_brace hafter]
    | @cons _ _ _ _ _ others hname hv hothers =>
      subst hms
      obtain ⟨d', after, hafter, h', hstep⟩ :=
        h.readMembers_step hlead hname hv (ends_comma (others ++ ascii '\x7d' :: rest)) limit
      obtain ⟨d'', after', hafter', h'', hrest⟩ := ih h' hothers hlimit (.comma hafter)
      rw [List.append_assoc, List.singleton_append] at hrest
      refine ⟨d'', after', hafter', h'', ?_⟩
      rw [List.append_assoc, List.cons_append, List.append_assoc, List.cons_append, hstep, hrest]

/-- A map is read up to the brace that closes it. -/
theorem readMap_of_perm (h : (members.filter fun m => m.1 ∈ fieldNames).Perm parts.fields)
    (hbs : RendersMembers (members.map fun m => (codes m.1, m.2)) bs) (rest : Bytes) :
    readMap (bs ++ ascii '\x7d' :: rest) = .ok (parts, rest) := by
  have hlimit : members.length < (bs ++ ascii '\x7d' :: rest).length + 1 := by
    have hle := hbs.length_le
    simp only [List.length_map] at hle
    simp only [List.length_append]
    omega
  obtain ⟨d, after, hafter, hd, hread⟩ := (awaits_all h).readMembers hbs hlimit .first rest
  rw [List.nil_append] at hread
  have hclose := hafter.skipSpace_cons (show isSpace (ascii '\x7d') = false by decide) rest
  simp only [readMap, hread, hd.complete, hclose, List.tail_cons, bind, Except.bind, pure,
    Except.pure]

/-- The four elements of a sequence are read up to the bracket that closes it. -/
theorem readSequence_of_elements (h : RendersElements (parts.fields.map Prod.snd) bs)
    (rest : Bytes) : readSequence (bs ++ ascii ']' :: rest) = .ok (parts, rest) := by
  cases h with
  | @cons _ _ first _ hcolumns h =>
  cases h with
  | @cons _ _ second _ hrows h =>
  cases h with
  | @cons _ _ third fourth htargets h =>
  cases h with
  | cons _ h => cases h
  | last hamounts =>
    obtain ⟨before₁, hbefore₁, hcolumns⟩ := hcolumns.readElement shape 0 .first
      (ends_comma (second ++ ascii ',' :: (third ++ ascii ',' :: (fourth ++ ascii ']' :: rest))))
    obtain ⟨before₂, hbefore₂, hrows⟩ := hrows.readElement shape 1 (.comma hbefore₁)
      (ends_comma (third ++ ascii ',' :: (fourth ++ ascii ']' :: rest)))
    obtain ⟨before₃, hbefore₃, htargets⟩ := htargets.readElement shape 2 (.comma hbefore₂)
      (ends_comma (fourth ++ ascii ']' :: rest))
    obtain ⟨after, hafter, hamounts⟩ := hamounts.readElement shape 3 (.comma hbefore₃)
      (ends_bracket rest)
    simp only [List.append_assoc, List.cons_append,
      List.nil_append] at hcolumns hrows htargets hamounts ⊢
    simp only [readSequence, hcolumns, hrows, htargets, hamounts, closeSequence_bracket hafter,
      bind, Except.bind, pure, Except.pure]

/-- Parts are read from any text of a value that stands for them. -/
theorem Form.read {v : Value} (h : Form parts v) (hbs : RendersPadded v bs) (rest : Bytes) :
    ∃ after, Blank after ∧ Coded.read (bs ++ rest) = .ok (parts, after ++ rest) := by
  obtain ⟨hbefore, hbs, hafter⟩ := hbs
  refine ⟨_, hafter, ?_⟩
  change Parts.read _ = _
  rw [List.append_assoc, List.append_assoc]
  generalize _ ++ rest = rest
  cases h with
  | sequence =>
    cases hbs with
    | array hbs =>
      have hne : ascii '[' ≠ ascii '\x7b' := by decide
      rw [List.cons_append, Parts.read, hbefore.skipSpace_cons (by decide), List.append_assoc]
      simp only [hne, if_true, if_false]
      exact readSequence_of_elements hbs rest
  | map members h =>
    generalize hms : members.map (fun m => (codes m.1, m.2)) = ms at hbs
    cases hbs with
    | emptyObject =>
      obtain rfl := List.map_eq_nil_iff.mp hms
      cases h.nil_eq
    | object hbs =>
      subst hms
      rw [List.cons_append, Parts.read, hbefore.skipSpace_cons (by decide), List.append_assoc]
      exact readMap_of_perm h hbs rest

/-- What is written of parts is a text of a map that stands for them. -/
theorem exists_form_write (parts : Parts C R) :
    ∃ v, Form parts v ∧ Renders v (Coded.write parts) := by
  have hform : Form parts _ := .map parts.fields (.of_eq (by simp [fields, fieldNames]))
  refine ⟨_, hform, ?_⟩
  have hmembers := RendersMembers.cons (rendersName_writeString "columns")
    (Legible.padded_write parts.columns)
    (.cons (rendersName_writeString "rows") (Legible.padded_write parts.rows)
      (.cons (rendersName_writeString "targets") (Legible.padded_write parts.targets)
        (.last (rendersName_writeString "amounts") (Legible.padded_write parts.amounts))))
  have hobject := Renders.object hmembers
  change Renders _ (write parts)
  simpa [write, fields] using hobject

end Parts

end ExactCover
