import RecordQuery.Text.Basic

/-!
Help pages: a title, the usage, and sections of lines.
-/

namespace RecordQuery

structure HelpPage where
  name : Text
  summary : Text
  usage : Text
  description : List Text
  options : List Text
  examples : List Text
  notes : List Text

namespace HelpPage

-- A section under its title, each line set off by two blanks; nothing if it has no lines.
def block (title : Text) (lines : List Text) : Text :=
  if lines.isEmpty then []
  else .concat ["\n", title, ":\n",
    .concat (lines.map fun line => if line.isEmpty then "\n" else .concat ["  ", line, "\n"])]

def render (page : HelpPage) : Text :=
  .concat [page.name, " - ", page.summary, "\n\nUsage: ", page.usage, "\n",
    block "Description" page.description, block "Options" page.options,
    block "Examples" page.examples, block "Notes" page.notes]

end HelpPage

end RecordQuery
