import Fabula.Proofs.Script.Growth

/-!
# Outlines

An outline is a script as a tree of blocks. It knows no places: `code` is the list of sentences
that it stands for, with all the links that compiling finds, and a list of lines grows into the
code of every outline with these lines.
-/

namespace Fabula.Script

mutual

/-- What stands between the lines of a block. -/
inductive Body where
  | nil
  | say (line : Say) (rest : Body)
  | jump (label : Option String) (rest : Body)
  | menu (lead : Body) (options : Options) (rest : Body)
  | conditional (condition : String) (body : Body) (branches : Branches) (rest : Body)

inductive Options where
  | nil
  | cons (text : String) (body : Body) (rest : Options)

/-- The branches of a conditional after its first. A branch without a condition is the last. -/
inductive Branches where
  | nil
  | otherwise (body : Body)
  | cons (condition : String) (body : Body) (rest : Branches)

end

/-- A whole script. Between its bodies stand closers with nothing to close. -/
inductive Outline where
  | body (b : Body)
  | stray (before : Body) (after : Outline)

mutual

def Body.lines : Body → List Line
  | .nil => []
  | .say line rest => .say line :: rest.lines
  | .jump label rest => .jump label :: rest.lines
  | .menu lead options rest => .menu :: (lead.lines ++ (options.lines ++ .close :: rest.lines))
  | .conditional condition body branches rest =>
    .conditional condition :: (body.lines ++ (branches.lines ++ .close :: rest.lines))

def Options.lines : Options → List Line
  | .nil => []
  | .cons text body rest => .option text :: (body.lines ++ rest.lines)

def Branches.lines : Branches → List Line
  | .nil => []
  | .otherwise body => .otherwise :: body.lines
  | .cons condition body rest => .branch condition :: (body.lines ++ rest.lines)

end

def Outline.lines : Outline → List Line
  | body b => b.lines
  | stray before after => before.lines ++ .close :: after.lines

def Body.size (b : Body) : Nat := b.lines.length

def Options.size (o : Options) : Nat := o.lines.length

def Branches.size (b : Branches) : Nat := b.lines.length

/-- The options of a menu, the marker of the first standing at `i`. -/
def Options.entries : Options → Nat → List MenuOption
  | .nil, _ => []
  | .cons text body rest, i => ⟨text, i + 1⟩ :: rest.entries (i + 1 + body.size)

/-- The branches that have a condition, the marker of the first standing at `i`. -/
def Branches.entries : Branches → Nat → List Branch
  | .cons condition body rest, i => ⟨condition, i + 1⟩ :: rest.entries (i + 1 + body.size)
  | _, _ => []

/-- Where the branch without a condition begins. -/
def Branches.last? : Branches → Nat → Option Nat
  | .nil, _ => none
  | .otherwise _, i => some (i + 1)
  | .cons _ body rest, i => rest.last? (i + 1 + body.size)

mutual

/-- The sentences of a body that begins at `i`. -/
def Body.code : Body → Nat → List Sentence
  | .nil, _ => []
  | .say line rest, i => .say line :: rest.code (i + 1)
  | .jump label rest, i => .jump label :: rest.code (i + 1)
  | .menu lead options rest, i =>
    .menu ⟨options.entries (i + 1 + lead.size), some (i + 1 + lead.size + options.size)⟩ ::
      (lead.code (i + 1) ++ (options.code i (i + 1 + lead.size) ++
        .close :: rest.code (i + 1 + lead.size + options.size + 1)))
  | .conditional condition body branches rest, i =>
    .conditional ⟨condition, branches.entries (i + 1 + body.size),
        branches.last? (i + 1 + body.size), some (i + 1 + body.size + branches.size)⟩ ::
      (body.code (i + 1) ++ (branches.code i (i + 1 + body.size) ++
        .close :: rest.code (i + 1 + body.size + branches.size + 1)))

/-- The sentences of the options, from `i`, of the menu at `own`. -/
def Options.code : Options → Nat → Nat → List Sentence
  | .nil, _, _ => []
  | .cons text body rest, own, i =>
    .option text own :: (body.code (i + 1) ++ rest.code own (i + 1 + body.size))

/-- The sentences of the branches, from `i`, of the conditional at `own`. -/
def Branches.code : Branches → Nat → Nat → List Sentence
  | .nil, _, _ => []
  | .otherwise body, own, i => .otherwise own :: body.code (i + 1)
  | .cons condition body rest, own, i =>
    .branch condition own :: (body.code (i + 1) ++ rest.code own (i + 1 + body.size))

end

def Outline.code : Outline → Nat → List Sentence
  | body b, i => b.code i
  | stray before after, i => before.code i ++ .close :: after.code (i + before.size + 1)

theorem Body.size_menu (lead : Body) (options : Options) (rest : Body) :
    (Body.menu lead options rest).size = 1 + lead.size + options.size + 1 + rest.size := by
  simp only [Body.size, Options.size, Body.lines, List.length_cons, List.length_append]
  omega

theorem Body.size_conditional (condition : String) (body : Body) (branches : Branches)
    (rest : Body) : (Body.conditional condition body branches rest).size =
      1 + body.size + branches.size + 1 + rest.size := by
  simp only [Body.size, Branches.size, Body.lines, List.length_cons, List.length_append]
  omega

theorem Options.size_cons (text : String) (body : Body) (rest : Options) :
    (Options.cons text body rest).size = 1 + body.size + rest.size := by
  simp only [Options.size, Body.size, Options.lines, List.length_cons, List.length_append]
  omega

theorem Branches.size_cons (condition : String) (body : Body) (rest : Branches) :
    (Branches.cons condition body rest).size = 1 + body.size + rest.size := by
  simp only [Branches.size, Body.size, Branches.lines, List.length_cons, List.length_append]
  omega

theorem Branches.size_otherwise (body : Body) :
    (Branches.otherwise body).size = 1 + body.size := by
  simp only [Branches.size, Body.size, Branches.lines, List.length_cons]
  omega

mutual

@[simp] theorem Body.length_code (b : Body) (i : Nat) : (b.code i).length = b.size := by
  cases b with
  | nil => rfl
  | say line rest => simp [Body.code, Body.size, Body.lines, rest.length_code]
  | jump label rest => simp [Body.code, Body.size, Body.lines, rest.length_code]
  | menu lead options rest =>
    simp [Body.code, Body.size, Body.lines, Options.size, lead.length_code, options.length_code,
      rest.length_code]
  | conditional condition body branches rest =>
    simp [Body.code, Body.size, Body.lines, Branches.size, body.length_code, branches.length_code,
      rest.length_code]

@[simp] theorem Options.length_code (o : Options) (own i : Nat) :
    (o.code own i).length = o.size := by
  cases o with
  | nil => rfl
  | cons text body rest =>
    simp [Options.code, Options.size, Options.lines, Body.size, body.length_code, rest.length_code]

@[simp] theorem Branches.length_code (b : Branches) (own i : Nat) :
    (b.code own i).length = b.size := by
  cases b with
  | nil => rfl
  | otherwise body =>
    simp [Branches.code, Branches.size, Branches.lines, Body.size, body.length_code]
  | cons condition body rest =>
    simp [Branches.code, Branches.size, Branches.lines, Body.size, body.length_code,
      rest.length_code]

end

end Fabula.Script
