/-!
# The frame of a PowerShell script

What all PowerShell scripts have in common. The tables of one program are filled in at the
placeholders; the rest decodes them, resolves the place on the command line, matches and scores as
the library does, and registers the completion.
-/

namespace ShellCompletion.Script.PowerShell

/-- The lines of a script, with a placeholder wherever a part depends on the program. -/
def frame : List String := [
  "# PowerShell completion for @@NAME@@",
  "#",
  "# Dot-source this file from your profile.",
  "#",
  "# Diagnostics:",
  "#   Get-@@NAME@@CompletionDebug [-Words <string[]>]",
  "#   Test-@@NAME@@FuzzyMatch -Pattern <string> -Candidate <string>",
  "",
  "$global:__@@NAME@@Completion = @\x7b",
  "    Program = '@@PROGRAM@@'",
  "    Config = @\x7b",
  "        FuzzyEnabled = @@FUZZY_ENABLED@@",
  "        MaxCandidates = @@MAX_CANDIDATES@@",
  "        MinPatternLength = @@MIN_PATTERN_LENGTH@@",
  "        ScoreThreshold = @@SCORE_THRESHOLD@@",
  "        MaxResults = @@MAX_RESULTS@@",
  "        CacheMaxSize = @@CACHE_MAX_SIZE@@",
  "    \x7d",
  "    Contexts = @(",
  "@@CONTEXTS@@    )",
  "    FlagParams = @(",
  "@@FLAG_PARAMS@@    )",
  "    ContextIndex = $null",
  "    FlagIndex = $null",
  "    ScoreCache = [System.Collections.Generic.Dictionary[string, int]]::new([System.StringComparer]::Ordinal)",
  "\x7d",
  "",
  "# Undoes the backtick and backslash escapes in embedded literals.",
  "function global:__@@NAME@@Completion_Decode \x7b",
  "    param([string]$Text)",
  "    [regex]::Replace($Text, '`([$`\"&|;<>()])|\\\\(\\\\)', '$1$2')",
  "\x7d",
  "",
  "# Builds the context and flag lookups once per session.",
  "function global:__@@NAME@@Completion_Index \x7b",
  "    $state = $global:__@@NAME@@Completion",
  "    if ($null -ne $state.ContextIndex) \x7b",
  "        return",
  "    \x7d",
  "",
  "    $contexts = [System.Collections.Generic.Dictionary[string, string[]]]::new([System.StringComparer]::Ordinal)",
  "    foreach ($context in $state.Contexts) \x7b",
  "        $path = __@@NAME@@Completion_Decode $context.Path",
  "        $options = [string[]]@($context.Options | ForEach-Object \x7b __@@NAME@@Completion_Decode $_ \x7d)",
  "        $contexts[$path] = $options",
  "    \x7d",
  "",
  "    $flags = [System.Collections.Generic.Dictionary[string, object]]::new([System.StringComparer]::Ordinal)",
  "    foreach ($param in $state.FlagParams) \x7b",
  "        $path = __@@NAME@@Completion_Decode $param.Path",
  "        $name = __@@NAME@@Completion_Decode $param.Name",
  "        $flags[\"$path|$name\"] = [pscustomobject]@\x7b",
  "            Name = $name",
  "            Requirement = $param.Requirement",
  "            Kind = $param.Kind",
  "            Options = [string[]]@($param.Options | ForEach-Object \x7b __@@NAME@@Completion_Decode $_ \x7d)",
  "        \x7d",
  "    \x7d",
  "",
  "    $state.FlagIndex = $flags",
  "    $state.ContextIndex = $contexts",
  "\x7d",
  "",
  "function global:__@@NAME@@Completion_Score \x7b",
  "    param([string]$Pattern, [string]$Candidate)",
  "    $state = $global:__@@NAME@@Completion",
  "    # Length prefix keeps keys unique when either string contains '|'.",
  "    $key = \"$($Pattern.Length):$Pattern|$Candidate\"",
  "    $cached = 0",
  "    if ($state.ScoreCache.TryGetValue($key, [ref]$cached)) \x7b",
  "        return $cached",
  "    \x7d",
  "",
  "    $score = 0",
  "    $patLen = $Pattern.Length",
  "    $candLen = $Candidate.Length",
  "    if ($candLen -ge $patLen) \x7b",
  "        $lp = $Pattern.ToLowerInvariant()",
  "        $lc = $Candidate.ToLowerInvariant()",
  "        if ($lc.StartsWith($lp, [System.StringComparison]::Ordinal)) \x7b",
  "            $score = 100",
  "        \x7d",
  "        else \x7b",
  "            $present = $true",
  "            foreach ($ch in $lp.ToCharArray()) \x7b",
  "                if ($lc.IndexOf($ch) -lt 0) \x7b",
  "                    $present = $false",
  "                    break",
  "                \x7d",
  "            \x7d",
  "            if ($present) \x7b",
  "                $next = 0",
  "                $matched = 0",
  "                $run = 0",
  "                $maxRun = 0",
  "                $last = -2",
  "                $bonus = 0",
  "                for ($i = 0; $i -lt $lc.Length -and $next -lt $lp.Length; $i++) \x7b",
  "                    if ($lc[$i] -cne $lp[$next]) \x7b",
  "                        continue",
  "                    \x7d",
  "                    if ($i -eq 0 -and $next -eq 0) \x7b",
  "                        $bonus = 20",
  "                    \x7d",
  "                    if ($last -eq ($i - 1)) \x7b",
  "                        $run++",
  "                    \x7d",
  "                    else \x7b",
  "                        $run = 1",
  "                    \x7d",
  "                    if ($run -gt $maxRun) \x7b",
  "                        $maxRun = $run",
  "                    \x7d",
  "                    $last = $i",
  "                    $matched++",
  "                    $next++",
  "                \x7d",
  "                $penalty = [Math]::Min($candLen - $patLen, 10)",
  "                $score = [int]([Math]::Floor($matched * 60 / $patLen) + [Math]::Floor($maxRun * 20 / $patLen)) + $bonus - $penalty",
  "                $score = [Math]::Max(0, [Math]::Min(100, $score))",
  "            \x7d",
  "        \x7d",
  "    \x7d",
  "",
  "    if ($state.ScoreCache.Count -gt $state.Config.CacheMaxSize) \x7b",
  "        $state.ScoreCache.Clear()",
  "    \x7d",
  "    $state.ScoreCache[$key] = $score",
  "    return $score",
  "\x7d",
  "",
  "function global:__@@NAME@@Completion_Match \x7b",
  "    param([string]$Pattern, [string[]]$Candidates)",
  "    $config = $global:__@@NAME@@Completion.Config",
  "    $ordinal = [System.StringComparison]::Ordinal",
  "    $result = [System.Collections.Generic.List[string]]::new()",
  "    if ($null -eq $Candidates) \x7b",
  "        return",
  "    \x7d",
  "",
  "    if ($Candidates.Count -gt $config.MaxCandidates) \x7b",
  "        foreach ($candidate in $Candidates) \x7b",
  "            if ($candidate.StartsWith($Pattern, $ordinal)) \x7b",
  "                $result.Add($candidate)",
  "            \x7d",
  "        \x7d",
  "        return $result.ToArray()",
  "    \x7d",
  "",
  "    foreach ($candidate in $Candidates) \x7b",
  "        if ($candidate.StartsWith($Pattern, $ordinal)) \x7b",
  "            $result.Add($candidate)",
  "        \x7d",
  "    \x7d",
  "    if ($result.Count -gt 0) \x7b",
  "        return $result.ToArray()",
  "    \x7d",
  "",
  "    $lp = $Pattern.ToLowerInvariant()",
  "    foreach ($candidate in $Candidates) \x7b",
  "        if ($candidate.ToLowerInvariant().StartsWith($lp, $ordinal)) \x7b",
  "            $result.Add($candidate)",
  "        \x7d",
  "    \x7d",
  "    if ($result.Count -gt 0) \x7b",
  "        return $result.ToArray()",
  "    \x7d",
  "",
  "    if ($config.FuzzyEnabled -and $Pattern.Length -ge $config.MinPatternLength) \x7b",
  "        $scored = [System.Collections.Generic.List[object]]::new()",
  "        $order = 0",
  "        foreach ($candidate in $Candidates) \x7b",
  "            $score = __@@NAME@@Completion_Score -Pattern $Pattern -Candidate $candidate",
  "            if ($score -gt 0 -and $score -ge $config.ScoreThreshold) \x7b",
  "                $scored.Add([pscustomobject]@\x7b Name = $candidate; Score = $score; Order = $order \x7d)",
  "            \x7d",
  "            $order++",
  "        \x7d",
  "        if ($scored.Count -gt 0) \x7b",
  "            return $scored |",
  "                Sort-Object -Property @\x7b Expression = 'Score'; Descending = $true \x7d, @\x7b Expression = 'Order'; Descending = $false \x7d |",
  "                Select-Object -First $config.MaxResults |",
  "                ForEach-Object \x7b $_.Name \x7d",
  "        \x7d",
  "    \x7d",
  "",
  "    foreach ($candidate in $Candidates) \x7b",
  "        if ($candidate.ToLowerInvariant().Contains($lp)) \x7b",
  "            $result.Add($candidate)",
  "        \x7d",
  "    \x7d",
  "    return $result.ToArray()",
  "\x7d",
  "",
  "function global:__@@NAME@@Completion_Resolve \x7b",
  "    param([string[]]$Words)",
  "    __@@NAME@@Completion_Index",
  "    $index = $global:__@@NAME@@Completion.ContextIndex",
  "    $context = '/'",
  "    for ($i = 1; $i -lt $Words.Count; $i++) \x7b",
  "        $word = $Words[$i]",
  "        if ($word.StartsWith('-', [System.StringComparison]::Ordinal)) \x7b",
  "            break",
  "        \x7d",
  "        $next = \"$context$word/\"",
  "        if (-not $index.ContainsKey($next)) \x7b",
  "            break",
  "        \x7d",
  "        $context = $next",
  "    \x7d",
  "    return $context",
  "\x7d",
  "",
  "function global:__@@NAME@@Completion_Path \x7b",
  "    param([string]$Word)",
  "    $ordinal = [System.StringComparison]::Ordinal",
  "    $result = [System.Collections.Generic.List[string]]::new()",
  "    try \x7b",
  "        $cut = $Word.LastIndexOfAny([char[]]@('/', '\\'))",
  "        if ($cut -ge 0) \x7b",
  "            $dirPart = $Word.Substring(0, $cut + 1)",
  "            $namePart = $Word.Substring($cut + 1)",
  "        \x7d",
  "        else \x7b",
  "            $dirPart = ''",
  "            $namePart = $Word",
  "        \x7d",
  "        $dir = if ($dirPart) \x7b $dirPart \x7d else \x7b '.' \x7d",
  "        $separator = [System.IO.Path]::DirectorySeparatorChar",
  "        foreach ($entry in @(Get-ChildItem -LiteralPath $dir -Force -ErrorAction Stop)) \x7b",
  "            $name = $entry.Name",
  "            if (-not $name.StartsWith($namePart, $ordinal)) \x7b",
  "                continue",
  "            \x7d",
  "            if ($name.StartsWith('.', $ordinal) -and -not $namePart.StartsWith('.', $ordinal)) \x7b",
  "                continue",
  "            \x7d",
  "            $text = $dirPart + $name",
  "            if ($entry.PSIsContainer) \x7b",
  "                $text += $separator",
  "            \x7d",
  "            $result.Add($text)",
  "        \x7d",
  "    \x7d",
  "    catch \x7b",
  "        $result.Clear()",
  "    \x7d",
  "    $paths = $result.ToArray()",
  "    [Array]::Sort($paths, [System.StringComparer]::Ordinal)",
  "    return $paths",
  "\x7d",
  "",
  "function global:Test-@@NAME@@FuzzyMatch \x7b",
  "    [CmdletBinding()]",
  "    param(",
  "        [Parameter(Mandatory = $true)]",
  "        [AllowEmptyString()]",
  "        [string]$Pattern,",
  "",
  "        [Parameter(Mandatory = $true)]",
  "        [AllowEmptyString()]",
  "        [string]$Candidate",
  "    )",
  "    __@@NAME@@Completion_Score -Pattern $Pattern -Candidate $Candidate",
  "\x7d",
  "",
  "function global:Get-@@NAME@@CompletionDebug \x7b",
  "    [CmdletBinding()]",
  "    param([string[]]$Words = @())",
  "    __@@NAME@@Completion_Index",
  "    $state = $global:__@@NAME@@Completion",
  "    $context = '/'",
  "    $candidates = @()",
  "    if ($Words.Count -gt 0) \x7b",
  "        $prior = @()",
  "        if ($Words.Count -gt 1) \x7b",
  "            $prior = $Words[0..($Words.Count - 2)]",
  "        \x7d",
  "        $context = __@@NAME@@Completion_Resolve -Words $prior",
  "        $candidates = @(__@@NAME@@Completion_Match -Pattern $Words[$Words.Count - 1] -Candidates $state.ContextIndex[$context])",
  "    \x7d",
  "    [pscustomobject]@\x7b",
  "        Program = __@@NAME@@Completion_Decode $state.Program",
  "        FuzzyEnabled = $state.Config.FuzzyEnabled",
  "        MaxCandidates = $state.Config.MaxCandidates",
  "        MinPatternLength = $state.Config.MinPatternLength",
  "        ScoreThreshold = $state.Config.ScoreThreshold",
  "        MaxResults = $state.Config.MaxResults",
  "        CacheMaxSize = $state.Config.CacheMaxSize",
  "        CacheSize = $state.ScoreCache.Count",
  "        ContextCount = $state.ContextIndex.Count",
  "        FlagParamCount = $state.FlagIndex.Count",
  "        Context = $context",
  "        Candidates = $candidates",
  "    \x7d",
  "\x7d",
  "",
  "$__@@NAME@@CompletionScriptBlock = \x7b",
  "    param($wordToComplete, $commandAst, $cursorPosition)",
  "    try \x7b",
  "        $ordinal = [System.StringComparison]::Ordinal",
  "        $state = $global:__@@NAME@@Completion",
  "        __@@NAME@@Completion_Index",
  "",
  "        $words = [System.Collections.Generic.List[string]]::new()",
  "        foreach ($element in $commandAst.CommandElements) \x7b",
  "            if ($element.Extent.EndOffset -ge $cursorPosition) \x7b",
  "                break",
  "            \x7d",
  "            if ($element -is [System.Management.Automation.Language.StringConstantExpressionAst]) \x7b",
  "                $words.Add($element.Value)",
  "            \x7d",
  "            else \x7b",
  "                $words.Add($element.Extent.Text)",
  "            \x7d",
  "        \x7d",
  "",
  "        $current = [string]$wordToComplete",
  "        $flag = ''",
  "        $value = $current",
  "        $prefix = ''",
  "        if ($current -match '^(-[^=]*)=(.*)$') \x7b",
  "            $flag = $Matches[1]",
  "            $value = $Matches[2]",
  "            $prefix = \"$flag=\"",
  "        \x7d",
  "        elseif ($words.Count -gt 0 -and $words[$words.Count - 1].StartsWith('-', $ordinal)) \x7b",
  "            $flag = $words[$words.Count - 1]",
  "        \x7d",
  "",
  "        $context = __@@NAME@@Completion_Resolve -Words $words.ToArray()",
  "        $candidates = $null",
  "        $isPath = $false",
  "        $param = $null",
  "        if ($flag -and $state.FlagIndex.TryGetValue(\"$context|$flag\", [ref]$param)) \x7b",
  "            switch ($param.Kind) \x7b",
  "                'enum' \x7b",
  "                    $candidates = @(__@@NAME@@Completion_Match -Pattern $value -Candidates $param.Options)",
  "                \x7d",
  "                'string' \x7b",
  "                    $candidates = @(__@@NAME@@Completion_Path -Word $value)",
  "                    $isPath = $true",
  "                \x7d",
  "            \x7d",
  "        \x7d",
  "        if ($null -eq $candidates) \x7b",
  "            $prefix = ''",
  "            $options = $null",
  "            [void]$state.ContextIndex.TryGetValue($context, [ref]$options)",
  "            $candidates = @(__@@NAME@@Completion_Match -Pattern $current -Candidates $options)",
  "        \x7d",
  "",
  "        foreach ($candidate in $candidates) \x7b",
  "            $text = $prefix + $candidate",
  "            if (-not $text) \x7b",
  "                continue",
  "            \x7d",
  "            $completion = $text",
  "            if ($text -match '[\\s''\"`$|&;()\x7b\x7d<>,@#\\u2018-\\u201B]') \x7b",
  "                $completion = \"'\" + [regex]::Replace($text, '[''\\u2018-\\u201B]', '$0$0') + \"'\"",
  "            \x7d",
  "            $type = [System.Management.Automation.CompletionResultType]::ParameterValue",
  "            if ($isPath) \x7b",
  "                $type = [System.Management.Automation.CompletionResultType]::ProviderItem",
  "            \x7d",
  "            elseif ($candidate.StartsWith('-', $ordinal)) \x7b",
  "                $type = [System.Management.Automation.CompletionResultType]::ParameterName",
  "            \x7d",
  "            [System.Management.Automation.CompletionResult]::new($completion, $text, $type, $text)",
  "        \x7d",
  "    \x7d",
  "    catch \x7b",
  "        return",
  "    \x7d",
  "\x7d",
  "",
  "Register-ArgumentCompleter -Native -CommandName (__@@NAME@@Completion_Decode '@@PROGRAM@@') -ScriptBlock $__@@NAME@@CompletionScriptBlock"]

end ShellCompletion.Script.PowerShell
