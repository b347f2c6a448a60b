import ReplCore.Style.Sheet

/-!
# Themes that come with the program

Each theme is a sheet: the values it gives to classes of tokens. These are five of the styles of
pygments; a theme that is named like another of its styles is not known here, and its sheet, which
that style would fill, is empty.
-/

namespace ReplCore.Theme

/-- The default theme: muted colors on a dark background. -/
def oneDark : List (String × List String) :=
  [("default", ["#ABB2BF"]), ("comment", ["#7F848E"]), ("err", ["#ABB2BF"]), ("esc", ["#ABB2BF"]),
   ("g", ["#ABB2BF"]), ("keyword", ["#C678DD", "#56B6C2"]), ("l", ["#ABB2BF"]), ("n", ["#E06C75"]),
   ("operator", ["#56B6C2"]), ("x", ["#ABB2BF"]), ("punctuation", ["#ABB2BF"]), ("ch", ["#7F848E"]),
   ("cm", ["#7F848E"]), ("cp", ["#7F848E"]), ("cpf", ["#7F848E"]), ("c1", ["#7F848E"]),
   ("cs", ["#7F848E"]), ("gd", ["#E06C75"]), ("ge", ["#ABB2BF"]), ("ges", ["#ABB2BF"]),
   ("gr", ["#E06C75"]), ("gh", ["#ABB2BF", "bold"]), ("gi", ["#98C379"]), ("go", ["#E06C75"]),
   ("gp", ["#ABB2BF"]), ("gs", ["#ABB2BF", "bold"]), ("gu", ["#ABB2BF", "bold"]),
   ("gt", ["#E06C75"]), ("literal", ["#E5C07B"]), ("kd", ["#C678DD"]), ("kn", ["#C678DD"]),
   ("kp", ["#C678DD"]), ("kr", ["#C678DD"]), ("type", ["#E5C07B"]), ("ld", ["#ABB2BF"]),
   ("number", ["#D19A66"]), ("string", ["#98C379"]), ("attr", ["#E06C75"]),
   ("built_in", ["#E5C07B"]), ("title.class", ["#E5C07B", "#E06C75"]), ("no", ["#E06C75"]),
   ("meta", ["#61AFEF"]), ("ni", ["#E06C75"]), ("title.function", ["#61AFEF", "bold"]),
   ("nl", ["#E06C75"]), ("nn", ["#E06C75"]), ("nx", ["#E06C75"]), ("py", ["#E06C75"]),
   ("tag", ["#E06C75"]), ("variable", ["#E06C75"]), ("pm", ["#ABB2BF"]), ("w", ["#ABB2BF"]),
   ("mb", ["#D19A66"]), ("mf", ["#D19A66"]), ("mh", ["#D19A66"]), ("mi", ["#D19A66"]),
   ("mo", ["#D19A66"]), ("sa", ["#98C379"]), ("sb", ["#98C379"]), ("sc", ["#98C379"]),
   ("dl", ["#98C379"]), ("sd", ["#98C379"]), ("s2", ["#98C379"]), ("char.escape", ["#98C379"]),
   ("sh", ["#98C379"]), ("subst", ["#98C379"]), ("sx", ["#98C379"]), ("regexp", ["#98C379"]),
   ("s1", ["#98C379"]), ("ss", ["#98C379"]), ("bp", ["#E5C07B"]), ("fm", ["#56B6C2", "bold"]),
   ("vc", ["#E06C75"]), ("vg", ["#E06C75"]), ("vi", ["#E06C75"]), ("vm", ["#E06C75"]),
   ("il", ["#D19A66"])]

/-- Bright colors on a dark background. -/
def monokai : List (String × List String) :=
  [("default", ["#F8F8F2"]), ("comment", ["#959077"]), ("err", ["#ED007E"]), ("esc", ["#F8F8F2"]),
   ("g", ["#F8F8F2"]), ("keyword", ["#66D9EF", "#FF4689"]), ("l", ["#AE81FF"]), ("n", ["#F8F8F2"]),
   ("operator", ["#FF4689"]), ("x", ["#F8F8F2"]), ("punctuation", ["#F8F8F2"]), ("ch", ["#959077"]),
   ("cm", ["#959077"]), ("cp", ["#959077"]), ("cpf", ["#959077"]), ("c1", ["#959077"]),
   ("cs", ["#959077"]), ("gd", ["#FF4689"]), ("ge", ["#F8F8F2"]), ("ges", ["#F8F8F2", "bold"]),
   ("gr", ["#FF4689"]), ("gh", ["#F8F8F2"]), ("gi", ["#A6E22E"]), ("go", ["#66D9EF"]),
   ("gp", ["#FF4689", "bold"]), ("gs", ["#F8F8F2", "bold"]), ("gu", ["#959077"]),
   ("gt", ["#66D9EF"]), ("literal", ["#66D9EF"]), ("kd", ["#66D9EF"]), ("kn", ["#FF4689"]),
   ("kp", ["#66D9EF"]), ("kr", ["#66D9EF"]), ("type", ["#66D9EF"]), ("ld", ["#E6DB74"]),
   ("number", ["#AE81FF"]), ("string", ["#E6DB74"]), ("attr", ["#A6E22E"]),
   ("built_in", ["#A6E22E"]), ("title.class", ["#A6E22E", "#A6E22E"]), ("no", ["#66D9EF"]),
   ("meta", ["#A6E22E"]), ("ni", ["#F8F8F2"]), ("title.function", ["#A6E22E"]), ("nl", ["#F8F8F2"]),
   ("nn", ["#F8F8F2"]), ("nx", ["#A6E22E"]), ("py", ["#F8F8F2"]), ("tag", ["#FF4689"]),
   ("variable", ["#F8F8F2"]), ("pm", ["#F8F8F2"]), ("w", ["#F8F8F2"]), ("mb", ["#AE81FF"]),
   ("mf", ["#AE81FF"]), ("mh", ["#AE81FF"]), ("mi", ["#AE81FF"]), ("mo", ["#AE81FF"]),
   ("sa", ["#E6DB74"]), ("sb", ["#E6DB74"]), ("sc", ["#E6DB74"]), ("dl", ["#E6DB74"]),
   ("sd", ["#E6DB74"]), ("s2", ["#E6DB74"]), ("char.escape", ["#AE81FF"]), ("sh", ["#E6DB74"]),
   ("subst", ["#E6DB74"]), ("sx", ["#E6DB74"]), ("regexp", ["#E6DB74"]), ("s1", ["#E6DB74"]),
   ("ss", ["#E6DB74"]), ("bp", ["#A6E22E"]), ("fm", ["#A6E22E"]), ("vc", ["#F8F8F2"]),
   ("vg", ["#F8F8F2"]), ("vi", ["#F8F8F2"]), ("vm", ["#F8F8F2"]), ("il", ["#AE81FF"])]

/-- Few colors on a light background. -/
def plain : List (String × List String) :=
  [("comment", ["#3D7B7B"]), ("keyword", ["#008000", "bold", "#A2F", "bold"]),
   ("operator", ["#666"]), ("ch", ["#3D7B7B"]), ("cm", ["#3D7B7B"]), ("cp", ["#9C6500"]),
   ("cpf", ["#3D7B7B"]), ("c1", ["#3D7B7B"]), ("cs", ["#3D7B7B"]), ("gd", ["#A00000"]),
   ("ges", ["bold"]), ("gr", ["#E40000"]), ("gh", ["#000080", "bold"]), ("gi", ["#008400"]),
   ("go", ["#717171"]), ("gp", ["#000080", "bold"]), ("gs", ["bold"]), ("gu", ["#800080", "bold"]),
   ("gt", ["#04D"]), ("literal", ["#008000", "bold"]), ("kd", ["#008000", "bold"]),
   ("kn", ["#008000", "bold"]), ("kp", ["#008000"]), ("kr", ["#008000", "bold"]),
   ("type", ["#B00040"]), ("number", ["#666"]), ("string", ["#BA2121"]), ("attr", ["#687822"]),
   ("built_in", ["#008000"]), ("title.class", ["#00F", "bold", "#CB3F38", "bold"]),
   ("no", ["#800"]), ("meta", ["#A2F"]), ("ni", ["#717171", "bold"]), ("title.function", ["#00F"]),
   ("nl", ["#767600"]), ("nn", ["#00F", "bold"]), ("tag", ["#008000", "bold"]),
   ("variable", ["#19177C"]), ("w", ["#BBB"]), ("mb", ["#666"]), ("mf", ["#666"]), ("mh", ["#666"]),
   ("mi", ["#666"]), ("mo", ["#666"]), ("sa", ["#BA2121"]), ("sb", ["#BA2121"]),
   ("sc", ["#BA2121"]), ("dl", ["#BA2121"]), ("sd", ["#BA2121"]), ("s2", ["#BA2121"]),
   ("char.escape", ["#AA5D1F", "bold"]), ("sh", ["#BA2121"]), ("subst", ["#A45A77", "bold"]),
   ("sx", ["#008000"]), ("regexp", ["#A45A77"]), ("s1", ["#BA2121"]), ("ss", ["#19177C"]),
   ("bp", ["#008000"]), ("fm", ["#00F"]), ("vc", ["#19177C"]), ("vg", ["#19177C"]),
   ("vi", ["#19177C"]), ("vm", ["#19177C"]), ("il", ["#666"])]

/-- The colors of an editor on a dark terminal. -/
def vim : List (String × List String) :=
  [("default", ["#CCC"]), ("comment", ["#000080"]), ("err", ["#CCC"]), ("esc", ["#CCC"]),
   ("g", ["#CCC"]), ("keyword", ["#CDCD00", "#CDCD00"]), ("l", ["#CCC"]), ("n", ["#CCC"]),
   ("operator", ["#39C"]), ("x", ["#CCC"]), ("punctuation", ["#CCC"]), ("ch", ["#000080"]),
   ("cm", ["#000080"]), ("cp", ["#000080"]), ("cpf", ["#000080"]), ("c1", ["#000080"]),
   ("cs", ["#CD0000", "bold"]), ("gd", ["#CD0000"]), ("ge", ["#CCC"]), ("ges", ["#CCC", "bold"]),
   ("gr", ["#F00"]), ("gh", ["#000080", "bold"]), ("gi", ["#00CD00"]), ("go", ["#888"]),
   ("gp", ["#000080", "bold"]), ("gs", ["#CCC", "bold"]), ("gu", ["#800080", "bold"]),
   ("gt", ["#04D"]), ("literal", ["#CDCD00"]), ("kd", ["#00CD00"]), ("kn", ["#CD00CD"]),
   ("kp", ["#CDCD00"]), ("kr", ["#CDCD00"]), ("type", ["#00CD00"]), ("ld", ["#CCC"]),
   ("number", ["#CD00CD"]), ("string", ["#CD0000"]), ("attr", ["#CCC"]), ("built_in", ["#CD00CD"]),
   ("title.class", ["#00CDCD", "#669", "bold"]), ("no", ["#CCC"]), ("meta", ["#CCC"]),
   ("ni", ["#CCC"]), ("title.function", ["#CCC"]), ("nl", ["#CCC"]), ("nn", ["#CCC"]),
   ("nx", ["#CCC"]), ("py", ["#CCC"]), ("tag", ["#CCC"]), ("variable", ["#00CDCD"]),
   ("pm", ["#CCC"]), ("w", ["#CCC"]), ("mb", ["#CD00CD"]), ("mf", ["#CD00CD"]), ("mh", ["#CD00CD"]),
   ("mi", ["#CD00CD"]), ("mo", ["#CD00CD"]), ("sa", ["#CD0000"]), ("sb", ["#CD0000"]),
   ("sc", ["#CD0000"]), ("dl", ["#CD0000"]), ("sd", ["#CD0000"]), ("s2", ["#CD0000"]),
   ("char.escape", ["#CD0000"]), ("sh", ["#CD0000"]), ("subst", ["#CD0000"]), ("sx", ["#CD0000"]),
   ("regexp", ["#CD0000"]), ("s1", ["#CD0000"]), ("ss", ["#CD0000"]), ("bp", ["#CD00CD"]),
   ("fm", ["#CCC"]), ("vc", ["#00CDCD"]), ("vg", ["#00CDCD"]), ("vi", ["#00CDCD"]),
   ("vm", ["#00CDCD"]), ("il", ["#CD00CD"])]

/-- Bold type and no colors. -/
def blackAndWhite : List (String × List String) :=
  [("keyword", ["bold", "bold"]), ("ges", ["bold"]), ("gh", ["bold"]), ("gp", ["bold"]),
   ("gs", ["bold"]), ("gu", ["bold"]), ("literal", ["bold"]), ("kd", ["bold"]), ("kn", ["bold"]),
   ("kr", ["bold"]), ("title.class", ["bold", "bold"]), ("ni", ["bold"]), ("nn", ["bold"]),
   ("tag", ["bold"]), ("char.escape", ["bold"]), ("subst", ["bold"])]

/-- The themes by name, which are not all the styles there are. -/
def builtins : List (String × List (String × List String)) :=
  [("one-dark", oneDark), ("monokai", monokai), ("default", plain), ("vim", vim),
   ("bw", blackAndWhite)]

/-- The sheet of one of these themes. There is none for any other style. -/
def builtin? (name : Text) : Option Sheet :=
  (builtins.find? fun t => t.1.toList = name).map fun t => Sheet.ofStrings t.2

end ReplCore.Theme
