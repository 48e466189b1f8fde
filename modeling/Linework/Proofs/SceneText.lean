import Linework.Failure
import Linework.Proofs.Json.Depth
import Linework.Proofs.Json.Splice
import Linework.Proofs.Paths
import Linework.Proofs.SceneGrammar

/-!
# Where the entries of a scene stand

A path leads to a command of a scene, and it leads to a text as well: through the
list of commands and, in each glow on the way, through the last member named
`children`. `Scene.entryText?` follows it there. This is another way of following a
path than `Command.at?`, on characters rather than commands, and the two go
together: where a scene has a command, its text has an entry that is read as that
command, and one that is read as another command may be put in its place
(`Scene.exists_entry`). The scene is then the same but for that command.

What else a text holds is of no account, and neither is how it is written: members
that nothing asks for may be nested too deep to be read, a name may be given twice
inside a glow, and the commands may stand in a list instead of an object.
-/

namespace Linework

open Json

/-! ## Inside a list of commands -/

namespace Command

theorem local_decode (d : Nat) : Local (decode d) := local_of_value_iff decode_eq_ok_iff

theorem array_decode_value_iff {d : Nat} {s rest : List Char} {cs : List Command} :
    array decode d s = .ok (cs, rest) ↔
      ∃ v, value d s = .ok (v, rest) ∧ ∃ items, v = .list items ∧ ReadsAll items cs := by
  rw [array_decode_iff]
  constructor
  · rintro ⟨items, hv, hall⟩
    exact ⟨_, hv, items, rfl, hall⟩
  · rintro ⟨v, hv, items, rfl, hall⟩
    exact ⟨items, hv, hall⟩

theorem local_array_decode (d : Nat) : Local (array decode d) :=
  local_of_value_iff array_decode_value_iff

/-- **An entry of a list may be exchanged for another.** -/
theorem exists_element {d : Nat} {s rest : List Char} {cs : List Command} {i : Nat} {c : Command}
    (h : array decode d s = .ok (cs, rest)) (hi : cs[i]? = some c) :
    ∃ d' e tail, d = d' + 1 ∧ element? i s = some e ∧ decode d' e = .ok (c, tail) ∧ Ends tail ∧
      Splices (array decode d) (cs.set i) (decode d') s rest e tail := by
  obtain ⟨d', bs, s', rfl, hbs, rfl, hcs⟩ := (array_eq_ok_iff local_decode).1 h
  obtain ⟨front, e, tail, he, hc, hends, rfl, hsplice⟩ := hcs.exists_splice decode_eq_ok_iff hi
  refine ⟨d', e, tail, rfl, ?_, hc, hends, bs ++ '[' :: front, by simp, ?_⟩
  · rw [element?, skipBlanks_blanks_append hbs rfl]
    exact he
  · intro e' bs' c' hbs' he'
    refine ⟨[], blanks_nil, (array_eq_ok_iff local_decode).2 ⟨d', bs, front ++ e', ?_⟩⟩
    refine ⟨rfl, hbs, ?_, hsplice e' bs' c' hbs' he'⟩
    rw [List.append_assoc, List.cons_append]

/-- **The children of a glow may be exchanged for others.** -/
theorem exists_children {d : Nat} {s rest : List Char} {children : List Command}
    (h : decode d s = .ok (.glow children, rest)) :
    ∃ d' e tail, d = d' + 1 ∧ member? "children" s = some e ∧
      array decode d' e = .ok (children, tail) ∧
      Splices (decode d) glow (array decode d') s rest e tail := by
  obtain ⟨v, hv, hreads⟩ := decode_eq_ok_iff.1 h
  cases hreads with
  | @glow ms items _ hkind hchildren hall =>
    obtain ⟨d', bs, s', rfl, hbs, rfl, hms⟩ := value_eq_object_iff.1 hv
    obtain ⟨before, after, rfl, hafter⟩ := exists_of_last? hchildren
    obtain ⟨front, e, tail, he, hitems, hs', hsplice⟩ := hms.exists_splice
      (fun _ => local_value d') skim_of_value hafter (hms.length_lt fun _ => local_value d')
    subst hs'
    refine ⟨d', e, tail, rfl, ?_, array_decode_iff.2 ⟨items, hitems, hall⟩,
      bs ++ '{' :: front, by simp, ?_⟩
    · rw [member?, skipBlanks_blanks_append hbs rfl]
      exact he
    · intro e' bs' children' hbs' he'
      obtain ⟨items', hitems', hall'⟩ := array_decode_iff.1 he'
      obtain ⟨hlast, hother⟩ := last?_exchange before after (.list items) (.list items')
      refine ⟨[], blanks_nil, decode_eq_ok_iff.2 ⟨_, ?_, .glow ?_ (hlast hafter) hall'⟩⟩
      · refine value_eq_object_iff.2 ⟨d', bs, front ++ e', rfl, hbs, ?_, ?_⟩
        · rw [List.append_assoc, List.cons_append]
        · exact hsplice e' bs' _ hbs' hitems'
      · rw [hother "kind" (by decide)]
        exact hkind

/-- The text from an entry on, below the entry that a text begins with: the path has
an index for each scope on the way. -/
def entryBelow? : List Nat → List Char → Option (List Char)
  | [], s => some s
  | i :: path, s => do entryBelow? path (← element? i (← member? "children" s))

/-- Where a path leads to a command below another, it leads to an entry that is read
as that command, and the entry may be exchanged for another. -/
theorem exists_entryBelow {d : Nat} {s rest : List Char} {c old : Command} {path : List Nat}
    (h : decode d s = .ok (c, rest)) (hrest : Ends rest) (hat : c.below? path = some old) :
    ∃ d' e tail, d = d' + 2 * path.length ∧ entryBelow? path s = some e ∧
      decode d' e = .ok (old, tail) ∧ Ends tail ∧
      Splices (decode d) (fun new => replacedBelow new path c) (decode d') s rest e tail := by
  induction path generalizing d s rest c with
  | nil =>
    rw [below?_nil, Option.some.injEq] at hat
    subst hat
    exact ⟨d, s, rest, rfl, rfl, h, hrest, .refl _ s rest⟩
  | cons i path ih =>
    obtain ⟨children, child, rfl, hchild, hbelow⟩ := exists_of_below?_cons hat
    -- two containers are opened on the way: the glow itself and the list of its children
    obtain ⟨d₁, e₁, tail₁, rfl, he₁, hchildren, hsplice₁⟩ := exists_children h
    obtain ⟨d₂, e₂, tail₂, rfl, he₂, hdecode, hends, hsplice₂⟩ := exists_element hchildren hchild
    obtain ⟨d', e, tail, rfl, he, hold, hends', hsplice⟩ := ih hdecode hends hbelow
    refine ⟨d', e, tail, by rw [List.length_cons]; omega, ?_, hold, hends', ?_⟩
    · rw [entryBelow?, he₁, Option.bind_eq_bind, Option.bind_some, he₂]
      exact he
    · have hput : (fun new => replacedBelow new (i :: path) (.glow children)) =
          glow ∘ children.set i ∘ fun new => replacedBelow new path child := by
        funext new
        rw [replacedBelow, modify_eq_set_of_getElem? hchild]
        rfl
      rw [hput]
      exact hsplice₁.trans (hsplice₂.trans hsplice)

end Command

/-! ## Inside a scene -/

namespace Scene

/-- The field of a scene. -/
theorem decode_commands_iff {d : Nat} {f : RecordField Scene} (hf : f ∈ record.fields)
    {s rest : List Char} {change : Scene → Scene} :
    f.decode d s = .ok (change, rest) ↔
      ∃ cs, array Command.decode d s = .ok (cs, rest) ∧ change = fun _ => ⟨cs⟩ := by
  rw [List.mem_singleton.1 hf]
  constructor
  · intro h
    obtain ⟨⟨cs, rest'⟩, hcs, h⟩ := bind_eq_ok_iff.1 h
    cases h
    exact ⟨cs, hcs, rfl⟩
  · rintro ⟨cs, hcs, rfl⟩
    exact bind_eq_ok_iff.2 ⟨(cs, rest), hcs, rfl⟩

theorem local_field {d : Nat} (f : RecordField Scene) (hf : f ∈ record.fields) :
    Local (f.decode d) := by
  rw [List.mem_singleton.1 hf]
  exact (Command.local_array_decode d).map fun cs (_ : Scene) => Scene.mk cs

/-- What a member says of a scene. -/
theorem item_eq_ok_iff {d : Nat} {key : String} {s rest : List Char}
    {change : Option (Scene → Scene)} :
    record.item d key s = .ok (change, rest) ↔
      key ≠ "commands" ∧ skim s = .ok rest ∧ change = none ∨
      key = "commands" ∧ ∃ cs, array Command.decode d s = .ok (cs, rest) ∧
        change = some fun _ => ⟨cs⟩ := by
  by_cases hkey : key = "commands"
  · subst hkey
    obtain ⟨f, hf, hfields⟩ := find?_commands
    have hmem : f ∈ record.fields := by
      rw [hfields]
      exact List.mem_singleton_self f
    rw [Record.item_of_some hf]
    constructor
    · rintro ⟨_, hchange, rfl⟩
      obtain ⟨cs, hcs, rfl⟩ := (decode_commands_iff hmem).1 hchange
      exact .inr ⟨rfl, cs, hcs, rfl⟩
    · rintro (⟨hne, -⟩ | ⟨-, cs, hcs, rfl⟩)
      · exact absurd rfl hne
      · exact ⟨_, (decode_commands_iff hmem).2 ⟨cs, hcs, rfl⟩, rfl⟩
  · rw [Record.item_of_none (find?_other hkey)]
    constructor
    · intro h
      exact .inl ⟨hkey, h⟩
    · rintro (⟨-, h⟩ | ⟨h, -⟩)
      · exact h
      · exact absurd h hkey

theorem skim_of_item {d : Nat} {key : String} {s rest : List Char}
    {change : Option (Scene → Scene)} (h : record.item d key s = .ok (change, rest)) :
    skim s = .ok rest := by
  rcases item_eq_ok_iff.1 h with ⟨-, hskim, -⟩ | ⟨-, cs, hcs, -⟩
  · exact hskim
  · exact skim_of_value_iff Command.array_decode_value_iff hcs

/-- Members that name no field change nothing. -/
theorem foldlM_override_of_none {ms : List (String × Option (Scene → Scene))}
    (h : ∀ m ∈ ms, m.2 = none) (state : Scene × List String) :
    ms.foldlM (fun state m => Record.override m.1 m.2 state) state = some state := by
  induction ms with
  | nil => rfl
  | cons m ms ih =>
    rw [List.foldlM_cons, h m List.mem_cons_self]
    exact ih fun m hm => h m (List.mem_cons_of_mem _ hm)

/-- Once the commands are given, no member that is left gives anything. -/
theorem forall_none_of_given {ms : List (String × Option (Scene → Scene))} {x : Scene}
    {state : Scene × List String} (hkey : ∀ m ∈ ms, m.2 ≠ none → m.1 = "commands")
    (h : ms.foldlM (fun state m => Record.override m.1 m.2 state) (x, ["commands"]) = some state) :
    ∀ m ∈ ms, m.2 = none := by
  induction ms with
  | nil => exact fun m hm => nomatch hm
  | cons m ms ih =>
    obtain ⟨key, change⟩ := m
    rw [List.foldlM_cons] at h
    cases change with
    | none =>
      rw [List.forall_mem_cons]
      exact ⟨rfl, ih (fun m hm => hkey m (List.mem_cons_of_mem _ hm)) h⟩
    | some change =>
      have hcommands : key = "commands" := hkey _ List.mem_cons_self (by simp)
      rw [Record.override, if_pos (by simp [hcommands])] at h
      cases h

/-- **The commands of a scene are given once.** -/
theorem exists_commands_member {ms : List (String × Option (Scene → Scene))} {x y : Scene}
    {given : List String} (hkey : ∀ m ∈ ms, m.2 ≠ none → m.1 = "commands")
    (h : ms.foldlM (fun state m => Record.override m.1 m.2 state) (x, []) = some (y, given))
    (hgiven : "commands" ∈ given) :
    ∃ before change after, ms = before ++ ("commands", some change) :: after ∧
      (∀ m ∈ before ++ after, m.2 = none) ∧ y = change x := by
  induction ms with
  | nil =>
    cases h
    cases hgiven
  | cons m ms ih =>
    obtain ⟨key, change⟩ := m
    have hkey' : ∀ m ∈ ms, m.2 ≠ none → m.1 = "commands" :=
      fun m hm => hkey m (List.mem_cons_of_mem _ hm)
    rw [List.foldlM_cons] at h
    cases change with
    | none =>
      obtain ⟨before, change, after, rfl, hnone, hy⟩ := ih hkey' h
      refine ⟨(key, none) :: before, change, after, rfl, ?_, hy⟩
      rw [List.cons_append, List.forall_mem_cons]
      exact ⟨rfl, hnone⟩
    | some change =>
      obtain rfl : key = "commands" := hkey _ List.mem_cons_self (by simp)
      have hms : ms.foldlM (fun state m => Record.override m.1 m.2 state)
          (change x, ["commands"]) = some (y, given) := h
      have hnone := forall_none_of_given hkey' hms
      rw [foldlM_override_of_none hnone] at hms
      cases hms
      exact ⟨[], change, ms, rfl, hnone, rfl⟩

/-- The commands alone in a list, as a text. -/
theorem positional_eq_ok_iff {d : Nat} {expected : Expected} {s rest : List Char} {x y : Scene} :
    Json.positional expected d record.fields 0 x s = .ok (y, rest) ↔
      ∃ e tail, nextElement true s = .ok (.entry e) ∧
        array Command.decode d e = .ok (y.commands, tail) ∧ closeList tail = .ok rest := by
  constructor
  · intro h
    obtain ⟨next, hnext, h⟩ := bind_eq_ok_iff.1 h
    cases next with
    | closes r => cases h
    | entry e =>
      obtain ⟨⟨change, tail⟩, hchange, h⟩ := bind_eq_ok_iff.1 h
      obtain ⟨cs, hcs, rfl⟩ := (decode_commands_iff (List.mem_singleton_self _)).1 hchange
      obtain ⟨rest', hclose, h⟩ := bind_eq_ok_iff.1 h
      cases h
      exact ⟨e, tail, hnext, hcs, hclose⟩
  · rintro ⟨e, tail, hnext, hcs, hclose⟩
    refine bind_eq_ok_iff.2 ⟨.entry e, hnext, ?_⟩
    refine bind_eq_ok_iff.2 ⟨(fun _ => ⟨y.commands⟩, tail), ?_, ?_⟩
    · exact (decode_commands_iff (List.mem_singleton_self _)).2 ⟨y.commands, hcs, rfl⟩
    · exact bind_eq_ok_iff.2 ⟨rest, hclose, rfl⟩

theorem closeList_blanks_append {bs : List Char} (hbs : Blanks bs) (s : List Char) :
    closeList (bs ++ s) = closeList s := by
  rw [closeList, closeList, skipBlanks_append hbs]

/-- The text from the list of commands on. An object gives it by its name, and a list
has nothing else in it. -/
def commandsText? (t : List Char) : Option (List Char) :=
  (member? "commands" t).or (element? 0 t)

/-- What the members of an object say of a scene depends on its commands alone. -/
theorem keyed_exchange {d : Nat} {t rest : List Char} {s : Scene}
    (h : record.keyed d t = .ok (s, rest)) :
    ∃ front e tail, memberFrom? "commands" t true t = some e ∧
      array Command.decode d e = .ok (s.commands, tail) ∧ t = front ++ e ∧
      ∀ (e' bs : List Char) (cs : List Command), Blanks bs →
        array Command.decode d e' = .ok (cs, bs ++ tail) →
          record.keyed d (front ++ e') = .ok (⟨cs⟩, rest) := by
  obtain ⟨ms, given, hms, hfold, hgiven⟩ := (Record.keyed_eq_ok_iff local_field).1 h
  -- the members that say something of a scene are those that name its commands
  have hkey : ∀ m ∈ ms, m.2 ≠ none ↔ m.1 = "commands" := by
    intro m hm
    obtain ⟨_, _, hitem⟩ := hms.exists_of_mem hm
    rcases item_eq_ok_iff.1 hitem with ⟨hne, -, hnone⟩ | ⟨heq, _, -, hsome⟩
    · simp [hne, hnone]
    · simp [heq, hsome]
  obtain ⟨before, change, after, rfl, hnone, rfl⟩ := exists_commands_member
    (fun m hm => (hkey m hm).1) hfold (hgiven _ (List.mem_singleton_self _) rfl)
  have hafter : ∀ m ∈ after, m.1 ≠ "commands" := by
    intro m hm hcommands
    exact (hkey m (by simp [hm])).2 hcommands (hnone m (List.mem_append_right _ hm))
  obtain ⟨front, e, tail, he, hitem, hs, hsplice⟩ := hms.exists_splice
    (Record.local_item local_field) skim_of_item hafter
    (hms.length_lt (Record.local_item local_field))
  have hcommands : ∃ cs, array Command.decode d e = .ok (cs, tail) ∧ change = fun _ => ⟨cs⟩ := by
    rcases item_eq_ok_iff.1 hitem with ⟨hne, -⟩ | ⟨-, cs, hcs, hchange⟩
    · exact absurd rfl hne
    · exact ⟨cs, hcs, Option.some.inj hchange⟩
  obtain ⟨cs, hcs, rfl⟩ := hcommands
  refine ⟨front, e, tail, he, hcs, hs, fun e' bs cs' hbs he' => ?_⟩
  refine (Record.keyed_eq_ok_iff local_field).2
    ⟨_, ["commands"], hsplice e' bs _ hbs (item_eq_ok_iff.2 (.inr ⟨rfl, cs', he', rfl⟩)), ?_, ?_⟩
  · have hbefore : ∀ m ∈ before, m.2 = none := fun m hm => hnone m (List.mem_append_left _ hm)
    rw [List.foldlM_append, foldlM_override_of_none hbefore, Option.bind_eq_bind, Option.bind_some,
      List.foldlM_cons]
    exact foldlM_override_of_none (fun m hm => hnone m (List.mem_append_right _ hm)) _
  · intro f hf _
    rw [List.mem_singleton.1 hf]
    exact List.mem_singleton_self _

/-- **The commands of a scene may be exchanged for others**, and a scene is nothing
else. -/
theorem exists_commands {d : Nat} {t rest : List Char} {s : Scene}
    (h : record.decode d t = .ok (s, rest)) :
    ∃ d' e tail, d = d' + 1 ∧ commandsText? t = some e ∧
      array Command.decode d' e = .ok (s.commands, tail) ∧
      Splices (record.decode d) Scene.mk (array Command.decode d') t rest e tail := by
  unfold Record.decode at h
  split at h
  · cases h
  · next t' ht =>
    obtain ⟨bs, hbs, rfl⟩ := (skipBlanks_eq_cons_iff rfl).1 ht
    cases d with
    | zero => cases h
    | succ d =>
      obtain ⟨e, tail, hnext, hcs, hclose⟩ := positional_eq_ok_iff.1 h
      obtain ⟨lead, hlead, hopens, rfl⟩ := nextElement_eq_entry_iff.1 hnext
      refine ⟨d, e, tail, rfl, ?_, hcs, bs ++ '[' :: lead, by simp, fun e' bs' cs hbs' he' => ?_⟩
      · rw [commandsText?, member?, element?, skipBlanks_blanks_append hbs rfl]
        exact entry?_eq_some_iff.2 hnext
      · obtain ⟨bs₁, u, hbs₁, hopens', rfl, hu⟩ :=
          exists_opens_of_value_iff Command.array_decode_value_iff he'
        refine ⟨[], blanks_nil, ?_⟩
        rw [List.append_assoc, List.cons_append, Record.decode, skipBlanks_blanks_append hbs rfl]
        refine positional_eq_ok_iff.2 ⟨u, bs' ++ tail, ?_, hu, ?_⟩
        · exact nextElement_eq_entry_iff.2 ⟨lead ++ bs₁, hlead.append hbs₁, hopens', by simp⟩
        · rw [closeList_blanks_append hbs']
          exact hclose
  · next t' ht =>
    obtain ⟨bs, hbs, rfl⟩ := (skipBlanks_eq_cons_iff rfl).1 ht
    cases d with
    | zero => cases h
    | succ d =>
      obtain ⟨front, e, tail, he, hcs, rfl, hexchange⟩ := keyed_exchange h
      refine ⟨d, e, tail, rfl, ?_, hcs, bs ++ '{' :: front, by simp, fun e' bs' cs hbs' he' => ?_⟩
      · rw [commandsText?, member?, element?, skipBlanks_blanks_append hbs rfl]
        show (memberFrom? "commands" (front ++ e) true (front ++ e)).or none = some e
        rw [he]
        rfl
      · refine ⟨[], blanks_nil, ?_⟩
        rw [List.append_assoc, List.cons_append, Record.decode, skipBlanks_blanks_append hbs rfl]
        exact hexchange e' bs' cs hbs' he'
  · cases h

/-- **The text from the entry of a path on**, in the text of a scene. -/
def entryText? : List Nat → List Char → Option (List Char)
  | [], _ => none
  | i :: path, t => do Command.entryBelow? path (← element? i (← commandsText? t))

/-- **An entry of a scene may be exchanged for another**, wherever it stands. -/
theorem exists_entry {d : Nat} {t rest : List Char} {s : Scene} {path : List Nat} {old : Command}
    (h : record.decode d t = .ok (s, rest)) (hat : Command.at? path s.commands = some old) :
    ∃ d' e tail, d = d' + 2 * path.length ∧ entryText? path t = some e ∧
      Command.decode d' e = .ok (old, tail) ∧ Ends tail ∧
      Splices (record.decode d) (fun new => ⟨Command.replacedAt new path s.commands⟩)
        (Command.decode d') t rest e tail := by
  cases path with
  | nil => cases hat
  | cons i path =>
    rw [Command.at?] at hat
    obtain ⟨c, hc, hbelow⟩ := Option.bind_eq_some_iff.1 hat
    obtain ⟨d₁, e₁, tail₁, rfl, he₁, hcommands, hsplice₁⟩ := exists_commands h
    obtain ⟨d₂, e₂, tail₂, rfl, he₂, hdecode, hends, hsplice₂⟩ :=
      Command.exists_element hcommands hc
    obtain ⟨d', e, tail, rfl, he, hold, hends', hsplice⟩ :=
      Command.exists_entryBelow hdecode hends hbelow
    refine ⟨d', e, tail, by rw [List.length_cons]; omega, ?_, hold, hends', ?_⟩
    · rw [entryText?, he₁, Option.bind_eq_bind, Option.bind_some, he₂]
      exact he
    · have hput : (fun new => Scene.mk (Command.replacedAt new (i :: path) s.commands)) =
          Scene.mk ∘ s.commands.set i ∘ fun new => Command.replacedBelow new path c := by
        funext new
        rw [Command.replacedAt, Command.modify_eq_set_of_getElem? hc]
        rfl
      rw [hput]
      exact hsplice₁.trans (hsplice₂.trans hsplice)

/-! ## Exchanging an entry -/

/-- **A text with another entry** where a path leads to. -/
def withEntry (path : List Nat) (w t : String) : Option String := do
  let e ← entryText? path t.toList
  let tail ← (skim e).toOption
  return String.ofList (t.toList.take (t.length - e.length)) ++ w ++ String.ofList tail

/-- **An entry may be exchanged for any text that is read as a command**, if it is
not nested too deep for its place. The entry it replaces is one that is read as the
command at the path, and nothing else in the text changes. -/
theorem exists_withEntry {t w : String} {s : Scene} {path : List Nat} {old new : Command}
    {v : Json} (ht : ofText t = .ok s) (hat : Command.at? path s.commands = some old)
    (hw : Json.document value w.toList = .ok v) (hnew : Command.Reads v new)
    (hdepth : 2 * path.length + v.depth ≤ deepest) :
    ∃ front entry tail : String, t = front ++ entry ++ tail ∧
      Json.document Command.decode entry.toList = .ok old ∧
      withEntry path w t = some (front ++ w ++ tail) ∧
      ofText (front ++ w ++ tail) = .ok ⟨Command.replacedAt new path s.commands⟩ := by
  obtain ⟨rest, hscene, hrest⟩ := document_eq_ok_iff.1 (mapError_eq_ok_iff.1 ht)
  obtain ⟨d', e, tail, hd, he, hold, hends, front, hfront, hsplice⟩ := exists_entry hscene hat
  obtain ⟨entry, rfl, hentry⟩ := (Command.local_decode d').front hold
  obtain ⟨r, hv, hr⟩ := document_eq_ok_iff.1 hw
  obtain ⟨written, hwritten, hmore⟩ := (local_value deepest).front hv
  -- blanks around the new entry are left behind it, and it is no deeper than it may be
  have hplaced : Command.decode d' (w.toList ++ tail) = .ok (new, r ++ tail) := by
    rw [hwritten, List.append_assoc]
    refine Command.decode_eq_ok_iff.2 ⟨v, ?_, hnew⟩
    exact (value_eq_ok_iff_depth_le (hmore _ (Ends.blanks hr hends)) d').2 (by omega)
  obtain ⟨bs, hbs, hread⟩ := hsplice _ r new hr hplaced
  refine ⟨String.ofList front, String.ofList entry, String.ofList tail, ?_, ?_, ?_, ?_⟩
  · rw [← String.toList_inj]
    simp [hfront]
  · obtain ⟨v', hv', hreads⟩ := Command.decode_eq_ok_iff.1 (hentry [] ends_nil)
    rw [String.toList_ofList, ← List.append_nil entry]
    refine document_eq_ok_iff.2 ⟨[], Command.decode_eq_ok_iff.2 ⟨v', ?_, hreads⟩, blanks_nil⟩
    have hle := depth_le_of_value hv'
    exact (value_eq_ok_iff_depth_le hv' deepest).2 (by omega)
  · have htake : t.toList.take (t.length - (entry ++ tail).length) = front := by
      rw [← String.length_toList, hfront, List.length_append, Nat.add_sub_cancel,
        List.take_left]
    rw [withEntry, he, Option.bind_eq_bind, Option.bind_some,
      toOption_eq_some_iff.2 (skim_of_value_iff Command.decode_eq_ok_iff hold), Option.bind_some,
      htake]
    rfl
  · refine mapError_eq_ok_iff.2 (document_eq_ok_iff.2 ⟨bs ++ rest, ?_, hbs.append hrest⟩)
    simpa using hread

end Scene

end Linework
