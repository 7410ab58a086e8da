/-!
# Files of the markdown lint task

The task runs in a directory of its own that holds these files.
-/

namespace DscAudit.Tool.LintTask

/-- The packages that the task needs. -/
def package : String := String.intercalate "\n"
  ["\x7b",
   "  \"name\": \"dscmeta-markdown-lint\",",
   "  \"version\": \"1.0.0\",",
   "  \"private\": true,",
   "  \"description\": \"Markdown lint task for DSC resource modules\",",
   "  \"devDependencies\": \x7b",
   "    \"gulp\": \"^4.0.2\",",
   "    \"markdownlint\": \"^0.29.0\",",
   "    \"minimist\": \"^1.2.8\",",
   "    \"through2\": \"^4.0.2\"",
   "  \x7d",
   "\x7d",
   ""]

/-- The task: it lints every markdown file of the module and prints the findings. -/
def task : String := String.intercalate "\n"
  ["\x27use strict\x27;",
   "",
   "const fs = require(\x27fs\x27);",
   "const path = require(\x27path\x27);",
   "const gulp = require(\x27gulp\x27);",
   "const markdownlint = require(\x27markdownlint\x27);",
   "const minimist = require(\x27minimist\x27);",
   "const through2 = require(\x27through2\x27);",
   "",
   "const args = minimist(process.argv.slice(2), \x7b string: [\x27rootpath\x27, \x27dscresourcespath\x27] \x7d);",
   "",
   "gulp.task(\x27test-mdsyntax\x27, function () \x7b",
   "    const rootPath = args.rootpath || process.cwd();",
   "    const configPath = path.join(args.dscresourcespath || __dirname, \x27.markdownlint.json\x27);",
   "    const config = JSON.parse(fs.readFileSync(configPath, \x27utf8\x27));",
   "",
   "    return gulp.src([",
   "        path.join(rootPath, \x27**\x27, \x27*.md\x27),",
   "        \x27!\x27 + path.join(rootPath, \x27**\x27, \x27node_modules\x27, \x27**\x27),",
   "        \x27!\x27 + path.join(rootPath, \x27DscResource.Tests\x27, \x27**\x27),",
   "        \x27!\x27 + path.join(rootPath, \x27output\x27, \x27**\x27)",
   "    ])",
   "        .pipe(through2.obj(function (file, encoding, next) \x7b",
   "            const result = markdownlint.sync(\x7b files: [file.path], config: config \x7d);",
   "            const text = result.toString();",
   "            if (text) \x7b",
   "                console.log(text);",
   "                process.exitCode = 1;",
   "            \x7d",
   "            next(null, file);",
   "        \x7d));",
   "\x7d);",
   ""]

/-- The rules that the linter applies by default. -/
def rules : String := String.intercalate "\n"
  ["\x7b",
   "  \"default\": true,",
   "  \"MD013\": true,",
   "  \"MD024\": false,",
   "  \"MD029\": \x7b",
   "    \"style\": \"one\"",
   "  \x7d,",
   "  \"MD034\": false,",
   "  \"no-hard-tabs\": true",
   "\x7d",
   ""]

/-- The name of the file with the rules, in the directory of the task and in a module. -/
def rulesName : String := ".markdownlint.json"

/-- The files of the task by their names. -/
def files : List (String × String) := [("package.json", package), ("gulpfile.js", task), (rulesName, rules)]

end DscAudit.Tool.LintTask
